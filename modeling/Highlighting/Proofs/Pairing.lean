/-
Pairing through the index is a plain search.

`Delta.greedy` is the search that nobody would run on long lists: each wanted
highlight looks through what is shown, from the front, for one that is not yet
taken and looks like it.  `Delta.between` never looks through anything; it asks an
index of free places.  What makes the two the same is that for every look the index
has exactly the places a search could stop at, in their order.  Pairing takes the
first of them away and leaves those of every other look alone, so this holds at
every turn, whatever the order in which looks are wanted.

A search in turn takes entries off one by one, which is what `Tally.subtract` counts
out.  That form is the one the rest of the theory goes by.
-/
import Highlighting.Delta
import Highlighting.Proofs.Tally

namespace Highlighting

/-! ### The plain search -/

/-- The highlights shown, each with whether it is taken. -/
abbrev Board := List (Highlight × Bool)

namespace Board

def ofList (shown : List Highlight) : Board := shown.map fun h => (h, false)

/-- Whether an entry is there to be taken by a highlight with the given look. -/
def offers (look : Appearance) (e : Highlight × Bool) : Bool := !e.2 && e.1.appearance == look

def takeAt (b : Board) (i : Nat) : Board := b.modify i fun e => (e.1, true)

/-- The highlights that are not taken. -/
def left (b : Board) : List Highlight := (b.filter fun e => !e.2).map (·.1)

end Board

/-- How far a search has come. -/
structure Scan where
  board : Board
  /-- The wanted highlights that found nothing. -/
  add : List Highlight

namespace Scan

def start (shown : List Highlight) : Scan := ⟨.ofList shown, []⟩

/-- A wanted highlight takes the earliest one on offer, or else has to be added. -/
def step (s : Scan) (w : Highlight) : Scan :=
  match s.board.findIdx? (Board.offers w.appearance) with
  | some i => { s with board := s.board.takeAt i }
  | none => { s with add := s.add ++ [w] }

end Scan

/-- The change from the highlights shown to those wanted, by search. -/
def Delta.greedy (shown wanted : List Highlight) : Delta :=
  let s := wanted.foldl Scan.step (.start shown)
  ⟨s.add, s.board.left⟩

/-! ### What a search finds, and what is left then -/

namespace Board

theorem offers_iff (look : Appearance) (e : Highlight × Bool) :
    offers look e = true ↔ e.2 = false ∧ e.1.appearance = look := by
  simp [offers]

/-- The places on offer, counted from the first entry on. -/
theorem findIdxs_cons (look : Appearance) (e : Highlight × Bool) (b : Board) :
    List.findIdxs (offers look) (e :: b) =
      if offers look e = true then 0 :: (b.findIdxs (offers look)).map (· + 1)
      else (b.findIdxs (offers look)).map (· + 1) := by
  rw [List.findIdxs_cons, List.findIdxs_start]

/-- A search stops at the first of all the places where it could stop. -/
theorem findIdx?_offers (look : Appearance) (b : Board) :
    b.findIdx? (offers look) = (b.findIdxs (offers look)).head? := by
  induction b with
  | nil => rfl
  | cons e rest ih =>
      rw [List.findIdx?_cons, findIdxs_cons, ih]
      by_cases he : offers look e = true
      · simp [he]
      · simp [he]

/-- Taking the first highlight on offer leaves the other ones on offer, and changes nothing for
another look. -/
theorem findIdxs_takeAt {look : Appearance} (look' : Appearance) (b : Board) :
    ∀ {i : Nat} {rest : List Nat}, b.findIdxs (offers look) = i :: rest →
      (b.takeAt i).findIdxs (offers look')
        = if look = look' then rest else b.findIdxs (offers look') := by
  induction b with
  | nil =>
      intro i rest h
      simp at h
  | cons e es ih =>
      intro i rest h
      rw [findIdxs_cons] at h
      by_cases he : offers look e = true
      · rw [if_pos he, List.cons.injEq] at h
        obtain ⟨rfl, rfl⟩ := h
        have htaken : ¬ offers look' (e.1, true) = true := by simp [offers]
        rw [takeAt, List.modify_zero_cons, findIdxs_cons, findIdxs_cons, if_neg htaken]
        by_cases hlook : look = look'
        · rw [if_pos hlook, hlook]
        · have hother : ¬ offers look' e = true := by
            rw [offers_iff]
            rintro ⟨-, happ⟩
            exact hlook (((offers_iff look e).mp he).2.symm.trans happ)
          rw [if_neg hlook, if_neg hother]
      · -- the first one on offer stands further back, at a place counted from there
        rw [if_neg he, List.map_eq_cons_iff] at h
        obtain ⟨j, js, hes, rfl, rfl⟩ := h
        rw [takeAt, List.modify_succ_cons, ← takeAt, findIdxs_cons, findIdxs_cons, ih hes]
        by_cases hlook : look = look'
        · subst hlook
          rw [if_neg he, if_pos rfl, if_pos rfl]
        · rw [if_neg hlook, if_neg hlook]

/-- Taking the earliest highlight on offer is erasing it from what is left. -/
theorem left_takeAt {look : Appearance} (b : Board) :
    ∀ {i : Nat}, b.findIdx? (offers look) = some i →
      (b.takeAt i).left = b.left.eraseP (fun h => h.appearance == look) := by
  induction b with
  | nil =>
      intro i h
      simp at h
  | cons e es ih =>
      intro i h
      rw [List.findIdx?_cons] at h
      by_cases he : offers look e = true
      · rw [if_pos he, Option.some.injEq] at h
        subst h
        obtain ⟨hfree, happ⟩ := (offers_iff look e).mp he
        simp [takeAt, left, hfree, happ]
      · rw [if_neg he, Option.map_eq_some_iff] at h
        obtain ⟨j, hj, rfl⟩ := h
        have hrest := ih hj
        rw [takeAt, left] at hrest
        rw [takeAt, List.modify_succ_cons, left, left, List.filter_cons, List.filter_cons]
        by_cases hfree : e.2 = false
        · have happ : ¬ e.1.appearance = look := fun h => he ((offers_iff look e).mpr ⟨hfree, h⟩)
          simp [hfree, happ, hrest, left]
        · simp [hfree, hrest, left]

theorem mem_left {b : Board} {h : Highlight} : h ∈ b.left ↔ (h, false) ∈ b := by
  simp [left]

/-- A search finds something exactly if what is left has the look. -/
theorem findIdx?_eq_none_iff (look : Appearance) (b : Board) :
    b.findIdx? (offers look) = none ↔ look ∉ b.left.map Highlight.appearance := by
  rw [List.findIdx?_eq_none_iff]
  constructor
  · intro h hmem
    obtain ⟨x, hx, rfl⟩ := List.mem_map.mp hmem
    have hoffers := h _ (mem_left.mp hx)
    simp [offers] at hoffers
  · rintro h ⟨x, taken⟩ hx
    rw [Bool.eq_false_iff, ne_eq, offers_iff]
    rintro ⟨rfl, rfl⟩
    exact h (List.mem_map_of_mem (mem_left.mpr hx))

end Board

/-! ### The index has the places where a search could stop -/

namespace Places

theorem ofLook_insert (p : Places) (look look' : Appearance) (is : List Nat) :
    ofLook (p.insert look is) look' = if look = look' then is else p.ofLook look' := by
  simp [ofLook, Std.HashMap.getD_insert]

theorem ofLook_foldr_push (look : Appearance) (shown : List Highlight) :
    ∀ n, ofLook ((shown.zipIdx n).foldr push ∅) look
      = (Board.ofList shown).findIdxs (Board.offers look) n := by
  induction shown with
  | nil => intro n; simp [ofLook, Board.ofList]
  | cons h hs ih =>
      intro n
      have hrest := ih (n + 1)
      have hboard : Board.ofList (h :: hs) = (h, false) :: Board.ofList hs := rfl
      rw [List.zipIdx_cons, List.foldr_cons, push, ofLook_insert, hboard, List.findIdxs_cons,
        ← hrest]
      by_cases hlook : h.appearance = look
      · simp [Board.offers, hlook]
      · simp [Board.offers, hlook]

end Places

/-- A pairing that has come as far as a search. -/
structure Pairing.Follows (shown : List Highlight) (p : Pairing) (s : Scan) : Prop where
  board : s.board = shown.zip p.paired.toList
  add : s.add = p.add.toList
  /-- For each look the index has the places on offer, the earliest first. -/
  places : ∀ look, p.free.ofLook look = s.board.findIdxs (Board.offers look)

namespace Pairing

theorem follows_start (shown : List Highlight) : Follows shown (start shown) (.start shown) where
  board := by
    show Board.ofList shown = shown.zip (Array.replicate shown.length false).toList
    rw [Board.ofList, Array.toList_replicate]
    induction shown with
    | nil => rfl
    | cons h hs ih =>
        rw [List.map_cons, ih, List.length_cons, List.replicate_succ, List.zip_cons_cons]
  add := rfl
  places := fun look => Places.ofLook_foldr_push look shown 0

/-- Noting that a place has a partner is taking it off the board. -/
theorem zip_set_true (shown : List Highlight) :
    ∀ (flags : List Bool) (i : Nat),
      shown.zip (flags.set i true) = Board.takeAt (shown.zip flags) i := by
  induction shown with
  | nil => intro flags i; rw [List.zip_nil_left, List.zip_nil_left, Board.takeAt, List.modify_nil]
  | cons h hs ih =>
      intro flags i
      cases flags with
      | nil => rw [List.set_nil, List.zip_nil_right, Board.takeAt, List.modify_nil]
      | cons f fs =>
          cases i with
          | zero => rfl
          | succ i => rw [List.set_cons_succ, List.zip_cons_cons, ih, List.zip_cons_cons]; rfl

theorem Follows.pair {shown : List Highlight} {p : Pairing} {s : Scan} (h : Follows shown p s)
    (w : Highlight) : Follows shown (p.pair w) (s.step w) := by
  have hfind : s.board.findIdx? (Board.offers w.appearance)
      = (p.free.ofLook w.appearance).head? := by
    rw [h.places, Board.findIdx?_offers]
  cases hfree : p.free.ofLook w.appearance with
  | nil =>
      have hstep : s.step w = { s with add := s.add ++ [w] } := by
        rw [Scan.step, hfind, hfree, List.head?_nil]
      have hpair : p.pair w = { p with add := p.add.push w } := by
        rw [Pairing.pair, hfree]
      rw [hstep, hpair]
      exact ⟨h.board, by simp [h.add], h.places⟩
  | cons i rest =>
      have hstep : s.step w = { s with board := s.board.takeAt i } := by
        rw [Scan.step, hfind, hfree, List.head?_cons]
      have hpair : p.pair w = { p with
          free := p.free.insert w.appearance rest
          paired := p.paired.setIfInBounds i true } := by
        rw [Pairing.pair, hfree]
      rw [hstep, hpair]
      refine ⟨?_, h.add, fun look => ?_⟩
      · show s.board.takeAt i = shown.zip (p.paired.setIfInBounds i true).toList
        rw [Array.toList_setIfInBounds, zip_set_true, ← h.board]
      · show Places.ofLook (p.free.insert w.appearance rest) look
          = (s.board.takeAt i).findIdxs (Board.offers look)
        have hplaces := (h.places w.appearance).symm.trans hfree
        rw [Places.ofLook_insert, Board.findIdxs_takeAt look s.board hplaces, h.places]

/-- Pairing keeps up with the search to the end. -/
theorem Follows.foldl {shown : List Highlight} (wanted : List Highlight) :
    ∀ {p : Pairing} {s : Scan}, Follows shown p s →
      Follows shown (wanted.foldl Pairing.pair p) (wanted.foldl Scan.step s) := by
  induction wanted with
  | nil => intro p s h; exact h
  | cons w ws ih => intro p s h; exact ih (h.pair w)

theorem Follows.unpaired {shown : List Highlight} {p : Pairing} {s : Scan}
    (h : Follows shown p s) : p.unpaired shown = s.board.left := by
  rw [Pairing.unpaired, Board.left, h.board]

end Pairing

/-! ### The search by counting -/

theorem eraseP_of_look_notMem {hs : List Highlight} {look : Appearance}
    (h : look ∉ hs.map Highlight.appearance) :
    hs.eraseP (fun x => x.appearance == look) = hs := by
  refine List.eraseP_of_forall_not fun x hx happ => h ?_
  rw [← beq_iff_eq.mp happ]
  exact List.mem_map_of_mem hx

namespace Scan

/-- A wanted highlight costs the earliest one left with its look, if there is one. -/
theorem left_step (s : Scan) (w : Highlight) :
    (s.step w).board.left = s.board.left.eraseP fun h => h.appearance == w.appearance := by
  cases hfind : s.board.findIdx? (Board.offers w.appearance) with
  | none =>
      rw [step, hfind, eraseP_of_look_notMem ((Board.findIdx?_eq_none_iff _ _).mp hfind)]
  | some i =>
      rw [step, hfind]
      exact Board.left_takeAt s.board hfind

/-- A wanted highlight is added if its look is not left. -/
theorem add_step (s : Scan) (w : Highlight) :
    (s.step w).add = if w.appearance ∈ s.board.left.map Highlight.appearance then s.add
      else s.add ++ [w] := by
  cases hfind : s.board.findIdx? (Board.offers w.appearance) with
  | none => rw [step, hfind, if_neg ((Board.findIdx?_eq_none_iff _ _).mp hfind)]
  | some i =>
      have hsome : w.appearance ∈ s.board.left.map Highlight.appearance := by
        by_contra hnone
        rw [(Board.findIdx?_eq_none_iff _ _).mpr hnone] at hfind
        cases hfind
      rw [step, hfind, if_pos hsome]

theorem left_foldl (wanted : List Highlight) :
    ∀ s : Scan, (wanted.foldl step s).board.left
      = Tally.subtract Highlight.appearance Highlight.appearance s.board.left wanted := by
  induction wanted with
  | nil => intro s; rw [Tally.subtract_nil, List.foldl_nil]
  | cons w ws ih => intro s; rw [List.foldl_cons, ih, left_step, Tally.subtract_cons]

theorem add_foldl (wanted : List Highlight) :
    ∀ s : Scan, (wanted.foldl step s).add
      = s.add ++ Tally.subtract Highlight.appearance Highlight.appearance wanted s.board.left := by
  induction wanted with
  | nil => intro s; rw [Tally.subtract, Tally.drop, List.append_nil, List.foldl_nil]
  | cons w ws ih =>
      intro s
      rw [List.foldl_cons, ih, add_step, left_step]
      by_cases hmem : w.appearance ∈ s.board.left.map Highlight.appearance
      · rw [if_pos hmem, Tally.cons_subtract_of_mem _ _ hmem]
      · rw [if_neg hmem, eraseP_of_look_notMem hmem, Tally.cons_subtract_of_notMem _ _ hmem,
          List.append_assoc]
        rfl

end Scan

theorem Board.left_ofList (shown : List Highlight) : (Board.ofList shown).left = shown := by
  simp [Board.left, Board.ofList, List.filter_map, Function.comp_def]

namespace Delta

/-- **The index finds what a search finds**, in the same order. -/
theorem between_eq_greedy (shown wanted : List Highlight) :
    between shown wanted = greedy shown wanted := by
  have hfollows := (Pairing.follows_start shown).foldl wanted
  rw [between, greedy, hfollows.add, hfollows.unpaired]

/-- What is added is left of what is wanted once what is shown is taken off, and what is removed
the other way round. -/
theorem between_eq_subtract (shown wanted : List Highlight) :
    between shown wanted =
      ⟨Tally.subtract Highlight.appearance Highlight.appearance wanted shown,
        Tally.subtract Highlight.appearance Highlight.appearance shown wanted⟩ := by
  have hfollows := (Pairing.follows_start shown).foldl wanted
  have hstart : (Scan.start shown).board.left = shown := Board.left_ofList shown
  rw [between, hfollows.unpaired, ← hfollows.add, Scan.add_foldl, Scan.left_foldl, hstart]
  rfl

end Delta

end Highlighting
