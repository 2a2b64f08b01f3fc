/-
The order of precedence that a configuration asks for.

A policy is made from a list of rules by dropping what stands earlier in the list and
adding what is not in it, so it holds each of the nine rules once and no rule can be
turned off.  A configuration is stricter than that: it may not name a rule twice, in
whatever spelling, and may not name anything else.  Where it is right, the two ways
agree: the rules it names stand first as they are.

Names are looked at one after the other, and the first fault is the one reported.  The
names before it are those of distinct rules, and that is all there is to know of them.
-/
import Highlighting.Config
import Highlighting.Proofs.Names
import Highlighting.Proofs.Precedence
import Mathlib

namespace Highlighting

/-! ### Policies hold each rule once -/

namespace Policy

/-- The rules of a list, each where it stands first. -/
def firsts (rules : List Rule) : List Rule :=
  (rules.zipIdx.filter fun e => !(rules.take e.2).contains e.1).map Prod.fst

/-- The rules that are not in a list, in their default order. -/
def others (rules : List Rule) : List Rule := Rule.all.filter fun r => !rules.contains r

theorem firsts_concat (rules : List Rule) (r : Rule) :
    firsts (rules ++ [r]) = firsts rules ++ if r ∈ rules then [] else [r] := by
  rw [firsts, List.zipIdx_append, List.filter_append, List.map_append, firsts]
  congr 1
  · congr 1
    refine List.filter_congr fun e he => ?_
    have hlt : e.2 < rules.length := by
      have := List.snd_lt_add_of_mem_zipIdx he
      omega
    rw [List.take_append_of_le_length (Nat.le_of_lt hlt)]
  · have htake : (rules ++ [r]).take rules.length = rules := List.take_left
    by_cases hr : r ∈ rules <;> simp [htake, hr]

theorem eraseDups_eq_firsts (rules : List Rule) : rules.eraseDups = firsts rules := by
  induction rules using List.reverseRecOn with
  | nil => rfl
  | append_singleton rules r ih =>
      rw [List.eraseDups_append, ih, firsts_concat]
      by_cases hr : r ∈ rules <;> simp [List.removeAll, hr, List.eraseDups_cons]

theorem nodup_firsts (rules : List Rule) : (firsts rules).Nodup := by
  induction rules using List.reverseRecOn with
  | nil => exact List.nodup_nil
  | append_singleton rules r ih =>
      rw [firsts_concat]
      by_cases hr : r ∈ rules
      · rwa [if_pos hr, List.append_nil]
      · rw [if_neg hr]
        have hnew : r ∉ firsts rules := by rwa [← eraseDups_eq_firsts, List.mem_eraseDups]
        exact ih.append (List.nodup_singleton r) (by simpa using hnew)

theorem firsts_eq_self {rules : List Rule} (h : rules.Nodup) : firsts rules = rules := by
  induction rules using List.reverseRecOn with
  | nil => rfl
  | append_singleton rules r ih =>
      obtain ⟨hrules, -, hr⟩ := List.nodup_append.mp h
      have hnew : r ∉ rules := fun hmem => hr r hmem r (by simp) rfl
      rw [firsts_concat, ih hrules, if_neg hnew]

theorem nodup_all : Rule.all.Nodup := by decide

/-- The order of a policy: first the rules it was made from, then the others. -/
theorem order_ofOrder (rules : List Rule) : (ofOrder rules).order = firsts rules ++ others rules := by
  have hothers : (Rule.all.removeAll rules).eraseDups = others rules := by
    rw [eraseDups_eq_firsts]
    exact firsts_eq_self (nodup_all.filter _)
  rw [ofOrder, List.eraseDups_append, eraseDups_eq_firsts, hothers]

theorem perm_order_ofOrder (rules : List Rule) : (ofOrder rules).order.Perm Rule.all := by
  have hnodup : (ofOrder rules).order.Nodup := by
    rw [ofOrder, eraseDups_eq_firsts]
    exact nodup_firsts _
  refine (List.perm_ext_iff_of_nodup hnodup nodup_all).mpr fun r => ?_
  exact ⟨fun _ => Rule.mem_all r, fun _ => mem_order_ofOrder rules r⟩

/-- The policies that hold each rule once are those that their own order makes. -/
theorem ofOrder_order_iff (p : Policy) : ofOrder p.order = p ↔ p.order.Perm Rule.all := by
  constructor
  · intro h
    rw [← h]
    exact perm_order_ofOrder p.order
  · intro h
    have hnone : others p.order = [] := by
      refine List.filter_eq_nil_iff.mpr fun r hr => ?_
      simp [h.mem_iff.mpr hr]
    have horder : (ofOrder p.order).order = p.order := by
      rw [order_ofOrder, firsts_eq_self (h.nodup_iff.mpr nodup_all), hnone, List.append_nil]
    exact congrArg Policy.mk horder

end Policy

/-! ### Names of distinct rules -/

namespace Config

/-- The names are those of the rules, none of which comes twice. -/
structure Lists (names : List String) (rules : List Rule) : Prop where
  canonical : names.map Text.canonical = rules.map Rule.name
  nodup : rules.Nodup

/-- What is wrong with the name at a place in a list: it is no rule's, or it is that of a rule named
before. -/
def FaultyAt (names : List String) (i : Nat) (e : Error) : Prop :=
  ∃ name, names[i]? = some name ∧
    ((∀ r : Rule, r.name ≠ Text.canonical name) ∧ e = .unknownRule name ∨
      ∃ r : Rule, r.name = Text.canonical name ∧ e = .duplicateRule r ∧
        ∃ j < i, ∃ earlier, names[j]? = some earlier ∧ r.name = Text.canonical earlier)

theorem Lists.unique {names : List String} {rules rules' : List Rule} (h : Lists names rules)
    (h' : Lists names rules') : rules = rules' :=
  List.map_injective_iff.mpr Rule.name_injective (h.canonical.symm.trans h'.canonical)

theorem FaultyAt.unique {names : List String} {i : Nat} {e e' : Error} (h : FaultyAt names i e)
    (h' : FaultyAt names i e') : e = e' := by
  obtain ⟨name, hname, h⟩ := h
  obtain ⟨name', hname', h'⟩ := h'
  rw [hname] at hname'
  cases hname'
  rcases h with ⟨hnone, rfl⟩ | ⟨r, hr, rfl, -⟩
  · rcases h' with ⟨-, rfl⟩ | ⟨r', hr', -⟩
    · rfl
    · exact absurd hr' (hnone r')
  · rcases h' with ⟨hnone, -⟩ | ⟨r', hr', rfl, -⟩
    · exact absurd hr (hnone r)
    · rw [Rule.name_injective (hr.trans hr'.symm)]

/-- There is nothing wrong with names of distinct rules, whatever follows them. -/
theorem Lists.not_faultyAt {names : List String} {rules : List Rule} (h : Lists names rules)
    (later : List String) {i : Nat} (hi : i < names.length) (e : Error) :
    ¬FaultyAt (names ++ later) i e := by
  -- the name at a place is that of the rule at the same place
  have hrule : ∀ {j : Nat} {name : String}, j ≤ i → (names ++ later)[j]? = some name →
      rules[j]?.map Rule.name = some (Text.canonical name) := by
    intro j name hj hname
    rw [List.getElem?_append_left (by omega)] at hname
    rw [← List.getElem?_map, ← h.canonical, List.getElem?_map, hname]
    rfl
  rintro ⟨name, hname, ⟨hnone, -⟩ | ⟨r, hr, -, j, hj, earlier, hearlier, hsame⟩⟩
  · obtain ⟨s, -, hs⟩ := Option.map_eq_some_iff.mp (hrule (Nat.le_refl i) hname)
    exact hnone s hs
  · obtain ⟨s, hsi, hs⟩ := Option.map_eq_some_iff.mp (hrule (Nat.le_refl i) hname)
    obtain ⟨t, htj, ht⟩ := Option.map_eq_some_iff.mp (hrule (Nat.le_of_lt hj) hearlier)
    have hst : s = t := Rule.name_injective (by rw [hs, ← hr, hsame, ← ht])
    obtain ⟨hlt, -⟩ := List.getElem?_eq_some_iff.mp hsi
    rw [hst, ← htj] at hsi
    have hplace : i = j := (List.getElem?_inj hlt h.nodup).mp hsi
    omega

theorem Lists.not_faulty {names : List String} {rules : List Rule} (h : Lists names rules) (i : Nat)
    (e : Error) : ¬FaultyAt names i e := by
  intro hfault
  obtain ⟨name, hname, -⟩ := id hfault
  have hnot := h.not_faultyAt [] (List.getElem?_eq_some_iff.mp hname).1 e
  rw [List.append_nil] at hnot
  exact hnot hfault

/-! ### The names of a configuration -/

/-- Either all names are those of distinct rules that were not seen before, or some name is the first
that is not. -/
theorem rulesOf_cases {seen : List Rule} (hseen : seen.Nodup) (names : List String) :
    (∃ rules, rulesOf seen names = .ok rules ∧ names.map Text.canonical = rules.map Rule.name ∧
      (seen ++ rules).Nodup) ∨
    ∃ before name later rules, names = before ++ name :: later ∧
      before.map Text.canonical = rules.map Rule.name ∧ (seen ++ rules).Nodup ∧
      ((∀ r : Rule, r.name ≠ Text.canonical name) ∧
          rulesOf seen names = .error (.unknownRule name) ∨
        ∃ r ∈ seen ++ rules, r.name = Text.canonical name ∧
          rulesOf seen names = .error (.duplicateRule r)) := by
  induction names generalizing seen with
  | nil => exact Or.inl ⟨[], rfl, rfl, by rwa [List.append_nil]⟩
  | cons name rest ih =>
      have hnil : (seen ++ []).Nodup := by rwa [List.append_nil]
      rw [rulesOf]
      cases hread : Rule.read? name with
      | none =>
          have hnone := Rule.read?_eq_none_iff.mp hread
          exact Or.inr ⟨[], name, rest, [], rfl, rfl, hnil, Or.inl ⟨hnone, rfl⟩⟩
      | some r =>
          have hr := Rule.read?_eq_some_iff.mp hread
          by_cases hmem : r ∈ seen
          · refine Or.inr ⟨[], name, rest, [], rfl, rfl, hnil, Or.inr ⟨r, by simpa using hmem, hr, ?_⟩⟩
            simp [hmem]
          · have hmore : (seen ++ [r]).Nodup :=
              hseen.append (List.nodup_singleton r) (by simpa using hmem)
            simp only [List.contains_eq_mem, hmem, decide_false, Bool.false_eq_true, if_false]
            rcases ih hmore with ⟨rules, hok, hnames, hnodup⟩ |
              ⟨before, bad, later, rules, rfl, hnames, hnodup, hbad⟩
            · rw [List.append_assoc] at hnodup
              exact Or.inl ⟨r :: rules, by rw [hok]; rfl, by simp [hnames, hr], hnodup⟩
            · rw [List.append_assoc] at hnodup
              refine Or.inr ⟨name :: before, bad, later, r :: rules, rfl, by simp [hnames, hr],
                hnodup, ?_⟩
              rcases hbad with ⟨hnone, herror⟩ | ⟨s, hs, hsname, herror⟩
              · exact Or.inl ⟨hnone, by rw [herror]; rfl⟩
              · rw [List.append_assoc] at hs
                exact Or.inr ⟨s, hs, hsname, by rw [herror]; rfl⟩

/-- The names of a configuration are those of distinct rules, or there is a first fault. -/
theorem rulesOf_ok_or_faulty (names : List String) :
    (∃ rules, rulesOf [] names = .ok rules ∧ Lists names rules) ∨
    ∃ i e, rulesOf [] names = .error e ∧ FaultyAt names i e ∧
      ∀ j < i, ∀ e', ¬FaultyAt names j e' := by
  rcases rulesOf_cases List.nodup_nil names with ⟨rules, hok, hnames, hnodup⟩ |
    ⟨before, bad, later, rules, rfl, hnames, hnodup, hbad⟩
  · exact Or.inl ⟨rules, hok, hnames, hnodup⟩
  · have hbefore : Lists before rules := ⟨hnames, hnodup⟩
    have hplace : (before ++ bad :: later)[before.length]? = some bad := by simp
    have hfirst : ∀ j < before.length, ∀ e', ¬FaultyAt (before ++ bad :: later) j e' :=
      fun j hj e' => hbefore.not_faultyAt _ hj e'
    rcases hbad with ⟨hnone, herror⟩ | ⟨r, hr, hrname, herror⟩
    · exact Or.inr ⟨before.length, _, herror, ⟨bad, hplace, Or.inl ⟨hnone, rfl⟩⟩, hfirst⟩
    · -- the rule was named at the place where it stands among the rules so far
      obtain ⟨j, hj⟩ := List.mem_iff_getElem?.mp hr
      have hname : (before.map Text.canonical)[j]? = some r.name := by
        rw [hnames, List.getElem?_map, List.nil_append] at *
        rw [hj]
        rfl
      rw [List.getElem?_map] at hname
      obtain ⟨earlier, hearlier, hcanonical⟩ := Option.map_eq_some_iff.mp hname
      obtain ⟨hlt, -⟩ := List.getElem?_eq_some_iff.mp hearlier
      refine Or.inr ⟨before.length, _, herror, ⟨bad, hplace, Or.inr ⟨r, hrname, rfl, j, hlt,
        earlier, ?_, hcanonical.symm⟩⟩, hfirst⟩
      rw [List.getElem?_append_left hlt, hearlier]

/-- The rules listed make a policy that starts with them. -/
theorem Lists.order {names : List String} {rules : List Rule} (h : Lists names rules) :
    (Policy.ofOrder rules).order = rules ++ Policy.others rules := by
  rw [Policy.order_ofOrder, Policy.firsts_eq_self h.nodup]

theorem rulesOf_eq_ok_iff {names : List String} {rules : List Rule} :
    rulesOf [] names = .ok rules ↔ Lists names rules := by
  rcases rulesOf_ok_or_faulty names with ⟨rules', hok, hlists⟩ | ⟨i, e, herror, hfault, -⟩
  · rw [hok]
    constructor
    · intro heq
      cases heq
      exact hlists
    · intro h
      rw [hlists.unique h]
  · rw [herror]
    exact ⟨(nomatch ·), fun h => absurd hfault (h.not_faulty i e)⟩

theorem rulesOf_eq_error_iff {names : List String} {e : Error} :
    rulesOf [] names = .error e ↔
      ∃ i, FaultyAt names i e ∧ ∀ j < i, ∀ e', ¬FaultyAt names j e' := by
  constructor
  · intro h
    rcases rulesOf_ok_or_faulty names with ⟨rules, hok, -⟩ | ⟨i, e', herror, hfault⟩
    · rw [hok] at h
      cases h
    · rw [herror] at h
      cases h
      exact ⟨i, hfault⟩
  · rintro ⟨i, hfault, hfirst⟩
    rcases rulesOf_ok_or_faulty names with ⟨rules, -, hlists⟩ | ⟨i', e', herror, hfault', hfirst'⟩
    · exact absurd hfault (hlists.not_faulty i e)
    · -- both are the first fault, so they are the same
      have hplace : i = i' := by
        rcases Nat.lt_trichotomy i i' with hlt | heq | hlt
        · exact absurd hfault (hfirst' i hlt e)
        · exact heq
        · exact absurd hfault' (hfirst i' hlt e')
      rw [← hplace] at hfault'
      rw [herror, hfault.unique hfault']

/-- A list of names is that of distinct rules if each of them is a rule's and no two are the same
one's. -/
theorem exists_lists_iff {names : List String} :
    (∃ rules, Lists names rules) ↔
      (∀ name ∈ names, ∃ r : Rule, r.name = Text.canonical name) ∧
        (names.map Text.canonical).Nodup := by
  constructor
  · rintro ⟨rules, hcanonical, hnodup⟩
    refine ⟨fun name hname => ?_, ?_⟩
    · have hmem := List.mem_map_of_mem (f := Text.canonical) hname
      rw [hcanonical] at hmem
      obtain ⟨r, -, hr⟩ := List.mem_map.mp hmem
      exact ⟨r, hr⟩
    · rw [hcanonical]
      exact hnodup.map Rule.name_injective
  · rintro ⟨hrules, hnodup⟩
    have hchoice : ∃ rules : List Rule, names.map Text.canonical = rules.map Rule.name := by
      clear hnodup
      induction names with
      | nil => exact ⟨[], rfl⟩
      | cons name rest ih =>
          obtain ⟨r, hr⟩ := hrules name (by simp)
          obtain ⟨rules, hrest⟩ := ih fun other hother => hrules other (by simp [hother])
          exact ⟨r :: rules, by simp [hr, hrest]⟩
    obtain ⟨rules, hcanonical⟩ := hchoice
    rw [hcanonical] at hnodup
    exact ⟨rules, hcanonical, hnodup.of_map⟩

/-- **A configuration's order of precedence holds every rule once.**  The policy of a list of names
is there if and only if each name is that of a rule and no two are the same rule's, and then the
rules named come first, in the order of the names, and the others follow in their default order.
Otherwise the error is that of the first name that is no rule's or is that of a rule named before.
Any list of rules makes a policy: the list comes first, each rule where it stands first, the others
follow in their default order, and every rule is there once; the policies with every rule once are
those that their own order makes. -/
theorem policy_eq_ok_iff_distinct (c : Config) (names : List String) :
    let result := { c with precedence := some names }.policy
    ((∃ p, result = .ok p) ↔ (∀ name ∈ names, ∃ r : Rule, r.name = Text.canonical name) ∧
      (names.map Text.canonical).Nodup) ∧
    (∀ p, result = .ok p ↔ p.order.Perm Rule.all ∧ ∃ rules : List Rule,
      names.map Text.canonical = rules.map Rule.name ∧ rules.Nodup ∧
        p.order = rules ++ Rule.all.filter fun r => !rules.contains r) ∧
    (∀ e, result = .error e ↔
      ∃ i, FaultyAt names i e ∧ ∀ j < i, ∀ e', ¬FaultyAt names j e') ∧
    (∀ rules, (Policy.ofOrder rules).order.Perm Rule.all ∧
      (Policy.ofOrder rules).order =
        Policy.firsts rules ++ Rule.all.filter fun r => !rules.contains r) ∧
    ∀ p : Policy, Policy.ofOrder p.order = p ↔ p.order.Perm Rule.all := by
  intro result
  have hresult : result = Policy.ofOrder <$> rulesOf [] names := rfl
  have hok : ∀ p, result = .ok p ↔ ∃ rules, Lists names rules ∧ Policy.ofOrder rules = p := by
    intro p
    rw [hresult]
    cases h : rulesOf [] names with
    | ok rules =>
        have hlists := rulesOf_eq_ok_iff.mp h
        constructor
        · intro heq
          exact ⟨rules, hlists, Except.ok.inj heq⟩
        · rintro ⟨rules', hlists', rfl⟩
          rw [hlists.unique hlists']
          rfl
    | error e =>
        refine ⟨(nomatch ·), ?_⟩
        rintro ⟨rules, hlists, -⟩
        rw [rulesOf_eq_ok_iff.mpr hlists] at h
        cases h
  refine ⟨?_, fun p => ?_, fun e => ?_, fun rules => ?_, Policy.ofOrder_order_iff⟩
  · rw [← exists_lists_iff]
    constructor
    · rintro ⟨p, hp⟩
      obtain ⟨rules, hlists, -⟩ := (hok p).mp hp
      exact ⟨rules, hlists⟩
    · rintro ⟨rules, hlists⟩
      exact ⟨_, (hok _).mpr ⟨rules, hlists, rfl⟩⟩
  · rw [hok]
    constructor
    · rintro ⟨rules, hlists, rfl⟩
      exact ⟨Policy.perm_order_ofOrder rules, rules, hlists.canonical, hlists.nodup, hlists.order⟩
    · rintro ⟨-, rules, hcanonical, hnodup, horder⟩
      have hlists : Lists names rules := ⟨hcanonical, hnodup⟩
      exact ⟨rules, hlists, congrArg Policy.mk (hlists.order.trans horder.symm)⟩
  · rw [hresult, ← rulesOf_eq_error_iff]
    cases rulesOf [] names with
    | ok rules => exact ⟨(nomatch ·), (nomatch ·)⟩
    | error e' =>
        constructor
        all_goals intro h; cases h; rfl
  · exact ⟨Policy.perm_order_ofOrder rules, Policy.order_ofOrder rules⟩

/-- The third name is another spelling of the first, and the fourth is not looked at. -/
example : { precedence := some ["Map-Key", "call", " map_key ", "keyword"] : Config }.policy =
    .error (.duplicateRule .mapKey) := by cbv

end Config

end Highlighting
