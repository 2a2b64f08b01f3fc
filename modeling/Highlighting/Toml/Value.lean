/-
Values of the configuration format.

Numbers, dates and times are kept as they were written: they are checked for
their form, and nothing here computes with them.
-/
namespace Highlighting.Toml

inductive Value where
  | string (text : String)
  | boolean (b : Bool)
  | number (written : String)
  | time (written : String)
  | array (items : List Value)
  | table (entries : List (String × Value))

end Highlighting.Toml
