/-
Colours written in digits.

A colour behind a number sign should be three hexadecimal digits, or six.  The reader
takes two characters for a component wherever a number of two characters can stand, and
a number may begin with a plus sign.  So it also accepts six characters of which some are
plus signs.  `Written` is the grammar, with what counts as a component left open:
`IsPair` is what should count, `IsPair` or `IsSigned` is what does.  Without a plus sign
in the text the two are the same.

The reader goes by characters.  `cutHex?` goes by the bytes of the text instead, and would
fail where a cut falls inside a character.  It never does: a text that is not all ASCII is
refused before anything is cut.
-/
import Highlighting.Style.Color
import Mathlib

namespace Highlighting.Color

/-! ### Digits and components -/

/-- `c` is the hexadecimal digit of value `n`, in either case. -/
def IsDigit (c : Char) (n : Nat) : Prop :=
  n < 16 ∧ (c = n.digitChar ∨ c = n.digitChar.toUpper)

instance (c : Char) (n : Nat) : Decidable (IsDigit c n) := inferInstanceAs (Decidable (_ ∧ _))

theorem digit?_of_isDigit {c : Char} {n : Nat} (h : IsDigit c n) :
    digit? c = some (UInt8.ofNat n) := by
  obtain ⟨hn, hc⟩ := h
  interval_cases n <;> rcases hc with rfl | rfl <;> rfl

theorem isDigit_of_digit? {c : Char} {v : UInt8} (h : digit? c = some v) : IsDigit c v.toNat := by
  have hrange : ∀ a b : Char, (a ≤ c ∧ c ≤ b) = (a.toNat ≤ c.toNat ∧ c.toNat ≤ b.toNat) :=
    fun _ _ => rfl
  simp only [digit?, hrange, Char.reduceToNat] at h
  rw [← Char.ofNat_toNat c]
  generalize c.toNat = n at h
  split_ifs at h with hnum hsmall hcapital
  · obtain ⟨hlow, hhigh⟩ := hnum
    cases h
    interval_cases n <;> decide
  · obtain ⟨hlow, hhigh⟩ := hsmall
    cases h
    interval_cases n <;> decide
  · obtain ⟨hlow, hhigh⟩ := hcapital
    cases h
    interval_cases n <;> decide

theorem digit?_eq_some_iff {c : Char} {v : UInt8} : digit? c = some v ↔ IsDigit c v.toNat :=
  ⟨isDigit_of_digit?, fun h => by rw [digit?_of_isDigit h, UInt8.ofNat_toNat]⟩

theorem not_isDigit_plus (n : Nat) : ¬IsDigit '+' n := by
  intro h
  have hread := digit?_of_isDigit h
  cases hread

/-- Two digits and the value of the number they write. -/
def IsPair (a b : Char) (v : UInt8) : Prop :=
  ∃ m n, IsDigit a m ∧ IsDigit b n ∧ v.toNat = 16 * m + n

/-- A plus sign and a digit of a value. -/
def IsSigned (a b : Char) (v : UInt8) : Prop := a = '+' ∧ IsDigit b v.toNat

/-- What is taken for a component. -/
def IsComponent (a b : Char) (v : UInt8) : Prop := IsPair a b v ∨ IsSigned a b v

theorem component?_eq_some_iff {a b : Char} {v : UInt8} :
    component? a b = some v ↔ IsComponent a b v := by
  unfold component? IsComponent IsPair IsSigned
  split
  · rename_i hplus
    subst hplus
    simp [digit?_eq_some_iff, not_isDigit_plus]
  · rename_i hplus
    simp only [bind, Option.bind_eq_some_iff, pure, Option.some.injEq, digit?_eq_some_iff, hplus,
      false_and, or_false]
    constructor
    · rintro ⟨hi, ha, lo, hb, rfl⟩
      refine ⟨hi.toNat, lo.toNat, ha, hb, ?_⟩
      have hhi := ha.1
      have hlo := hb.1
      rw [UInt8.toNat_add, UInt8.toNat_mul]
      simp
      omega
    · rintro ⟨m, n, ha, hb, hv⟩
      have hm := ha.1
      have hn := hb.1
      refine ⟨UInt8.ofNat m, ?_, UInt8.ofNat n, ?_, ?_⟩
      · rwa [UInt8.toNat_ofNat_of_lt' (Nat.lt_trans hm (by decide))]
      · rwa [UInt8.toNat_ofNat_of_lt' (Nat.lt_trans hn (by decide))]
      · apply UInt8.toNat_inj.mp
        rw [UInt8.toNat_add, UInt8.toNat_mul, hv]
        simp
        omega

/-! ### The grammar -/

/-- Six characters write a colour by its three components; three characters write what they do when
each stands twice. -/
inductive Written (C : Char → Char → UInt8 → Prop) : List Char → Color → Prop where
  | six {a a' b b' c c' : Char} {red green blue : UInt8} (hred : C a a' red) (hgreen : C b b' green)
      (hblue : C c c' blue) : Written C [a, a', b, b', c, c'] (.rgb red green blue)
  | three {a b c : Char} {color : Color} (h : Written C [a, a, b, b, c, c] color) :
      Written C [a, b, c] color

theorem ofHex?_six_eq_some_iff {a a' b b' c c' : Char} {color : Color} :
    ofHex? [a, a', b, b', c, c'] = some color ↔
      Written IsComponent [a, a', b, b', c, c'] color := by
  simp only [ofHex?, bind, Option.bind_eq_some_iff, pure, Option.some.injEq, component?_eq_some_iff]
  constructor
  · rintro ⟨red, hred, green, hgreen, blue, hblue, rfl⟩
    exact .six hred hgreen hblue
  · rintro ⟨hred, hgreen, hblue⟩
    exact ⟨_, hred, _, hgreen, _, hblue, rfl⟩

theorem ofHex?_eq_some_iff {hex : List Char} {color : Color} :
    ofHex? hex = some color ↔ Written IsComponent hex color := by
  constructor
  · intro h
    match hex with
    | [a, b, c] => exact .three (ofHex?_six_eq_some_iff.mp h)
    | [a, a', b, b', c, c'] => exact ofHex?_six_eq_some_iff.mp h
    | [] | [_] | [_, _] | [_, _, _, _] | [_, _, _, _, _] | _ :: _ :: _ :: _ :: _ :: _ :: _ :: _ =>
      cases h
  · intro h
    cases h with
    | six hred hgreen hblue => exact ofHex?_six_eq_some_iff.mpr (.six hred hgreen hblue)
    | three h => exact ofHex?_six_eq_some_iff.mpr h

theorem Written.mono {C D : Char → Char → UInt8 → Prop} {hex : List Char} {color : Color}
    (h : Written C hex color) (hCD : ∀ a ∈ hex, ∀ b v, C a b v → D a b v) :
    Written D hex color := by
  induction h with
  | six hred hgreen hblue =>
      exact .six (hCD _ (by simp) _ _ hred) (hCD _ (by simp) _ _ hgreen) (hCD _ (by simp) _ _ hblue)
  | three _ ih => exact .three (ih fun a ha => hCD a (by simpa using ha))

/-- Without a plus sign, what is accepted is three digits or six. -/
theorem written_iff_of_no_plus {hex : List Char} (h : '+' ∉ hex) {color : Color} :
    Written IsComponent hex color ↔ Written IsPair hex color := by
  constructor
  · intro hwritten
    refine hwritten.mono fun a ha b v hcomponent => hcomponent.resolve_right ?_
    rintro ⟨rfl, -⟩
    exact h ha
  · exact fun hwritten => hwritten.mono fun _ _ _ _ => Or.inl

/-! ### Cutting by bytes -/

/-- Cuts a text at a byte position, unless that is behind the end or inside a character. -/
def cutAt? : List Char → Nat → Option (List Char × List Char)
  | text, 0 => some ([], text)
  | [], _ + 1 => none
  | c :: rest, n + 1 =>
    if c.utf8Size ≤ n + 1 then
      (cutAt? rest (n + 1 - c.utf8Size)).map fun parts => (c :: parts.1, parts.2)
    else none

/-- The text from one byte position to another. -/
def cut? (text : List Char) (start stop : Nat) : Option (List Char) :=
  (cutAt? text start).bind fun parts => (cutAt? parts.2 (stop - start)).map (·.1)

/-- The three parts of a text that are each so many bytes long. -/
def thirds? (text : List Char) (n : Nat) : Option (List (List Char)) :=
  [0, 1, 2].mapM fun i => cut? text (i * n) ((i + 1) * n)

/-- Puts a digit behind a number that has to stay within a byte. -/
def pushDigit? (n : Nat) (c : Char) : Option Nat := do
  let v ← digit? c
  if 16 * n + v.toNat < 256 then some (16 * n + v.toNat) else none

/-- A number of one byte in hexadecimal digits, which may follow a plus sign. -/
def byte? (text : List Char) : Option UInt8 :=
  let digits := match text with
    | '+' :: c :: rest => c :: rest
    | _ => text
  if digits.isEmpty then none else (digits.foldlM pushDigit? 0).map UInt8.ofNat

/-- The colour of three numbers. -/
def ofParts? : List (List Char) → Option Color
  | [r, g, b] => return .rgb (← byte? r) (← byte? g) (← byte? b)
  | _ => none

/-- The colour written after a `#`, read by byte positions; nothing at all if a cut fails. -/
def cutHex? (hex : List Char) : Option (Option Color) :=
  if !hex.all (·.toNat < 128) then some none
  else match (hex.map Char.utf8Size).sum with
    | 3 => (thirds? hex 1).map fun parts => ofParts? (parts.map fun p => p ++ p)
    | 6 => (thirds? hex 2).map ofParts?
    | _ => some none

theorem pushDigit?_of_lt {n : Nat} (hn : n < 16) (c : Char) :
    pushDigit? n c = (digit? c).map fun v => 16 * n + v.toNat := by
  unfold pushDigit?
  cases hc : digit? c with
  | none => rfl
  | some v =>
      have hv := (digit?_eq_some_iff.mp hc).1
      exact if_pos (by omega)

theorem byte?_pair (a b : Char) : byte? [a, b] = component? a b := by
  unfold component?
  split
  · rename_i hplus
    subst hplus
    have hread : byte? ['+', b] = (pushDigit? 0 b).map UInt8.ofNat := by simp [byte?]
    rw [hread, pushDigit?_of_lt (by decide)]
    simp [Function.comp_def]
  · rename_i hplus
    have hread : byte? [a, b] = ((pushDigit? 0 a).bind (pushDigit? · b)).map UInt8.ofNat := by
      simp [byte?, hplus]
    rw [hread, pushDigit?_of_lt (by decide)]
    cases ha : digit? a with
    | none => rfl
    | some hi =>
        have hhi := (digit?_eq_some_iff.mp ha).1
        simp only [Option.map_some, Option.bind_some, mul_zero, zero_add, pushDigit?_of_lt hhi]
        cases digit? b with
        | none => rfl
        | some lo => simp [UInt8.ofNat_add, UInt8.ofNat_mul, mul_comm]

theorem utf8Size_of_ascii {c : Char} (h : c.toNat < 128) : c.utf8Size = 1 := by
  unfold Char.utf8Size
  rw [if_pos]
  rw [UInt32.le_iff_toNat_le]
  exact Nat.le_of_lt_succ h

theorem IsDigit.ascii {c : Char} {n : Nat} (h : IsDigit c n) : c.toNat < 128 := by
  obtain ⟨hn, hc⟩ := h
  interval_cases n <;> rcases hc with rfl | rfl <;> decide

theorem IsComponent.ascii {a b : Char} {v : UInt8} (h : IsComponent a b v) :
    a.toNat < 128 ∧ b.toNat < 128 := by
  rcases h with ⟨m, n, ha, hb, -⟩ | ⟨rfl, hb⟩
  · exact ⟨ha.ascii, hb.ascii⟩
  · exact ⟨by decide, hb.ascii⟩

/-- What is accepted is all ASCII. -/
theorem Written.ascii {hex : List Char} {color : Color} (h : Written IsComponent hex color) :
    ∀ c ∈ hex, c.toNat < 128 := by
  induction h with
  | six hred hgreen hblue => simp [hred.ascii, hgreen.ascii, hblue.ascii]
  | three _ ih => exact fun c hc => ih c (by simpa using hc)

theorem cutAt?_of_ascii {text : List Char} (h : ∀ c ∈ text, c.toNat < 128) {n : Nat}
    (hn : n ≤ text.length) : cutAt? text n = some (text.take n, text.drop n) := by
  induction text generalizing n with
  | nil =>
      rw [Nat.le_zero.mp hn]
      rfl
  | cons c rest ih =>
      rw [List.forall_mem_cons] at h
      cases n with
      | zero => rfl
      | succ n =>
          rw [cutAt?, utf8Size_of_ascii h.1, if_pos (Nat.le_add_left 1 n), Nat.add_sub_cancel,
            ih h.2 (Nat.le_of_succ_le_succ hn)]
          rfl

/-- No cut within an ASCII text fails. -/
theorem cut?_of_ascii {text : List Char} (h : ∀ c ∈ text, c.toNat < 128) {start stop : Nat}
    (hle : start ≤ stop) (hstop : stop ≤ text.length) :
    cut? text start stop = some ((text.drop start).take (stop - start)) := by
  have hback : ∀ c ∈ text.drop start, c.toNat < 128 := fun c hc => h c (List.mem_of_mem_drop hc)
  have hlength : stop - start ≤ (text.drop start).length := by
    rw [List.length_drop]
    omega
  rw [cut?, cutAt?_of_ascii h (hle.trans hstop), Option.bind_some, cutAt?_of_ascii hback hlength]
  rfl

theorem ofParts?_pairs (a a' b b' c c' : Char) :
    ofParts? [[a, a'], [b, b'], [c, c']] = ofHex? [a, a', b, b', c, c'] := by
  simp only [ofParts?, ofHex?, byte?_pair]

/-- **Cutting by bytes never fails,** and gives what going by characters does. -/
theorem cutHex?_eq (hex : List Char) : cutHex? hex = some (ofHex? hex) := by
  unfold cutHex?
  by_cases hascii : ∀ c ∈ hex, c.toNat < 128
  · have hsizes : (hex.map Char.utf8Size).sum = hex.length := by
      rw [List.map_congr_left fun c hc => utf8Size_of_ascii (hascii c hc)]
      simp
    rw [if_neg (by simpa using hascii), hsizes]
    match hex with
    | [a, b, c] =>
      have hparts : thirds? [a, b, c] 1 = some [[a], [b], [c]] := by
        simp [thirds?, cut?_of_ascii hascii]
      dsimp only [List.length_cons, List.length_nil]
      rw [hparts]
      exact congrArg some (ofParts?_pairs a a b b c c)
    | [a, a', b, b', c, c'] =>
      have hparts : thirds? [a, a', b, b', c, c'] 2 = some [[a, a'], [b, b'], [c, c']] := by
        simp [thirds?, cut?_of_ascii hascii]
      dsimp only [List.length_cons, List.length_nil]
      rw [hparts]
      exact congrArg some (ofParts?_pairs a a' b b' c c')
    | [] | [_] | [_, _] | [_, _, _, _] | [_, _, _, _, _] => rfl
    | _ :: _ :: _ :: _ :: _ :: _ :: _ :: _ => simp [ofHex?]
  · rw [if_pos (by simpa using hascii)]
    cases hread : ofHex? hex with
    | none => rfl
    | some color => exact absurd (ofHex?_eq_some_iff.mp hread).ascii hascii

/-! ### Texts behind a number sign -/

theorem read_of_hash {s : String} {hex : List Char} (h : Text.trim s.toList = '#' :: hex) :
    read s = (ofHex? hex).elim (.error ⟨String.ofList ('#' :: hex)⟩) fun color =>
      .ok (some color) := by
  have habsent : isAbsent ('#' :: hex) = false := by
    simp [isAbsent, String.ext_iff, Char.toLower]
  unfold read
  simp only [h, habsent, if_neg Bool.false_ne_true]
  cases ofHex? hex <;> rfl

/-- **Colours behind a number sign.**  Of a text that begins with a number sign once it is trimmed:

- Cutting it by bytes does not fail, and reads what going by characters reads.
- A colour is read exactly if the rest writes it, by three or by six characters.  Two characters
  write a component if they are two digits, or a plus sign and one digit.
- Every other text is refused, and the error holds it as trimmed.
- If there is no plus sign, what writes a colour is just three digits or six, in either case. -/
theorem read_hash {s : String} {hex : List Char} (h : Text.trim s.toList = '#' :: hex) :
    cutHex? hex = some (ofHex? hex) ∧
    (∀ c, read s = .ok c ↔ ∃ color, c = some color ∧ Written IsComponent hex color) ∧
    (∀ e, read s = .error e ↔
      e = ⟨String.ofList ('#' :: hex)⟩ ∧ ∀ color, ¬Written IsComponent hex color) ∧
    ('+' ∉ hex → ∀ color, Written IsComponent hex color ↔ Written IsPair hex color) := by
  refine ⟨cutHex?_eq hex, fun c => ?_, fun e => ?_, fun hplus color => written_iff_of_no_plus hplus⟩
  · simp only [read_of_hash h, ← ofHex?_eq_some_iff]
    cases ofHex? hex <;> simp [eq_comm]
  · simp only [read_of_hash h, ← ofHex?_eq_some_iff]
    cases ofHex? hex <;> simp [eq_comm]

/-- Six digits of both cases between blanks. -/
theorem read_hash_mixedCase :
    let hex := ['2', 'A', '0', '0', 'f', 'f']
    Text.trim " #2A00ff\n".toList = '#' :: hex ∧ Written IsPair hex (.rgb 42 0 255) ∧
      read " #2A00ff\n" = .ok (some (.rgb 42 0 255)) := by
  intro hex
  have htrim : Text.trim " #2A00ff\n".toList = '#' :: hex := by decide
  have hwritten : Written IsPair hex (.rgb 42 0 255) :=
    .six ⟨2, 10, by decide⟩ ⟨0, 0, by decide⟩ ⟨15, 15, by decide⟩
  obtain ⟨-, haccepts, -, hplain⟩ := read_hash htrim
  exact ⟨htrim, hwritten, (haccepts _).mpr ⟨_, rfl, (hplain (by decide) _).mpr hwritten⟩⟩

/-- Three components that are not two digits each are read all the same. -/
theorem read_plus_signs : read "#+1+2+3" = .ok (some (.rgb 1 2 3)) ∧
    ∀ color, ¬Written IsPair ['+', '1', '+', '2', '+', '3'] color := by
  refine ⟨by decide, fun color h => ?_⟩
  cases h with
  | six hred =>
      obtain ⟨m, -, hplus, -⟩ := hred
      exact not_isDigit_plus m hplus

end Highlighting.Color
