import Mathlib.Data.List.TakeWhile

/-!
# Readers that can be cut off

A `Reader` takes a value off the front of its input. This file is about what a
reader says when its input is only the beginning of a longer one: `Stable` readers
give the same value on every continuation, `StableBefore stop` readers do so once
they have stopped in front of an element that satisfies `stop` (a number stops
before anything that is not a digit, and only then is it known to be complete).

## Key results

- `sepBy_eq`: the loop over a separated list satisfies its own equation, so its
  fuel never runs out
- `sepBy_eq_some_iff`: the loop reads exactly the separated lists
- `StableBefore.sepBy`: a separated list of stable items is stable
- `StableBefore.skipBefore` / `StableBefore.skipAfter`: skipping keeps stability
-/

/-- Takes a value off the front of its input, or fails. -/
abbrev Reader (α β : Type*) := List α → Option (β × List α)

/-- Skipping commutes with a continuation, unless it reaches the end. -/
theorem List.dropWhile_append_of_ne_nil {p : α → Bool} {s : List α} (h : s.dropWhile p ≠ [])
    (t : List α) : (s ++ t).dropWhile p = s.dropWhile p ++ t := by
  rw [List.dropWhile_append, if_neg (by simpa using h)]

namespace Reader

variable {α β γ : Type*} {r : Reader α β} {stop : α → Prop} {p sep : α → Bool}

/-- What `r` reads does not depend on what follows the elements it took. -/
def Stable (r : Reader α β) : Prop :=
  ∀ s v rest, r s = some (v, rest) → ∀ t, r (s ++ t) = some (v, rest ++ t)

/-- What `r` reads does not depend on what follows, once it stopped at a `stop` element. -/
def StableBefore (stop : α → Prop) (r : Reader α β) : Prop :=
  ∀ s v c rest, r s = some (v, c :: rest) → stop c → ∀ t, r (s ++ t) = some (v, c :: rest ++ t)

/-- `r` leaves no more than it was given. -/
def NonIncreasing (r : Reader α β) : Prop :=
  ∀ s v rest, r s = some (v, rest) → rest.length ≤ s.length

theorem StableBefore.mono {stop' : α → Prop} (h : StableBefore stop r)
    (hstop : ∀ c, stop' c → stop c) : StableBefore stop' r :=
  fun _ _ _ _ hr hc t => h _ _ _ _ hr (hstop _ hc) t

/-! ## Skipping -/

theorem Stable.skipBefore (hnil : r [] = none) (h : Stable r) :
    Stable fun s => r (s.dropWhile p) := by
  intro s v rest hr t
  -- what is skipped ends inside the input, for `r` read something behind it
  have hne : s.dropWhile p ≠ [] := fun h0 => by simp [h0, hnil] at hr
  simp only [List.dropWhile_append_of_ne_nil hne]
  exact h _ _ _ hr t

theorem StableBefore.skipBefore (hnil : r [] = none) (h : StableBefore stop r) :
    StableBefore stop fun s => r (s.dropWhile p) := by
  intro s v c rest hr hc t
  have hne : s.dropWhile p ≠ [] := fun h0 => by simp [h0, hnil] at hr
  simp only [List.dropWhile_append_of_ne_nil hne]
  exact h _ _ _ _ hr hc t

/-- A reader that is stable in front of the skipped elements may skip them. -/
theorem StableBefore.skipAfter (hp : ∀ c, p c → stop c) (h : StableBefore stop r) :
    StableBefore stop fun s => (r s).map fun x => (x.1, x.2.dropWhile p) := by
  intro s v c rest hr hc t
  obtain ⟨⟨v', left⟩, hleft, heq⟩ := Option.map_eq_some_iff.mp hr
  obtain ⟨rfl, hdrop⟩ : v' = v ∧ left.dropWhile p = c :: rest := Prod.mk.inj heq
  cases left with
  | nil => simp at hdrop
  | cons d left =>
    -- the reader stopped at `d`, which is skipped or is `c` itself
    have hd : stop d := by
      by_cases hpd : p d
      · exact hp d hpd
      · rw [List.dropWhile_cons_of_neg hpd] at hdrop
        exact (List.cons.inj hdrop).1 ▸ hc
    have hne : (d :: left).dropWhile p ≠ [] := by rw [hdrop]; exact List.cons_ne_nil _ _
    simp only [h _ _ _ _ hleft hd t, Option.map_some]
    rw [List.dropWhile_append_of_ne_nil hne, hdrop]

theorem NonIncreasing.skipBefore (h : NonIncreasing r) :
    NonIncreasing fun s => r (s.dropWhile p) :=
  fun _ _ _ hr => (h _ _ _ hr).trans (List.dropWhile_sublist _).length_le

/-! ## Separated lists -/

/-- One turn of the loop over a separated list: an item, and `continue` if a separator
    follows it. -/
def sepByTurn (item : Reader α β) (sep : α → Bool) (continue_ : Reader α (List β)) :
    Reader α (List β) := fun s =>
  match item s with
  | none => none
  | some (v, []) => some ([v], [])
  | some (v, c :: rest) =>
    if sep c then (continue_ rest).map fun x => (v :: x.1, x.2) else some ([v], c :: rest)

/-- Reads items for as long as a separator follows the item just read. -/
def sepByFuel (item : Reader α β) (sep : α → Bool) : Nat → Reader α (List β)
  | 0 => fun _ => none
  | fuel + 1 => sepByTurn item sep (sepByFuel item sep fuel)

/-- Reads one or more items with separators between them. -/
def sepBy (item : Reader α β) (sep : α → Bool) : Reader α (List β) :=
  fun s => sepByFuel item sep (s.length + 1) s

variable {item : Reader α β}

/-- At the end of the input there is no list if there is no item. -/
theorem sepBy_nil (hnil : item [] = none) : sepBy item sep [] = none := by
  simp [sepBy, sepByFuel, sepByTurn, hnil]

/-- More fuel does not change a result. -/
private theorem sepByFuel_add {s : List α} {fuel : Nat} {x : List β × List α}
    (h : sepByFuel item sep fuel s = some x) (k : Nat) :
    sepByFuel item sep (fuel + k) s = some x := by
  induction fuel generalizing s x with
  | zero => simp [sepByFuel] at h
  | succ fuel ih =>
    rw [show fuel + 1 + k = fuel + k + 1 by omega]
    simp only [sepByFuel, sepByTurn] at h ⊢
    split at h
    · exact nomatch h
    · exact h
    · split at h
      · next hsep =>
        obtain ⟨y, hy, rfl⟩ := Option.map_eq_some_iff.mp h
        simp only [hsep, if_true, ih hy, Option.map_some]
      · next hsep => simpa only [hsep, Bool.false_eq_true, if_false] using h

/-- The loop equation: with items that take no element back, the fuel never runs out. -/
private theorem sepByFuel_eq (hitem : NonIncreasing item) {s : List α} {fuel fuel' : Nat}
    (hfuel : s.length < fuel) (hfuel' : s.length < fuel') :
    sepByFuel item sep fuel s = sepByFuel item sep fuel' s := by
  induction fuel generalizing s fuel' with
  | zero => omega
  | succ fuel ih =>
    obtain ⟨fuel', rfl⟩ : ∃ k, fuel' = k + 1 := ⟨fuel' - 1, by omega⟩
    simp only [sepByFuel, sepByTurn]
    split
    · rfl
    · rfl
    · next v c rest hread =>
      have hlen : rest.length + 1 ≤ s.length := by simpa using hitem _ _ _ hread
      -- the separator was taken, so the rest is shorter and less fuel is enough
      rw [ih (by omega) (show rest.length < fuel' by omega)]

/-- `sepBy` is the loop it stands for: its fuel never runs out. -/
theorem sepBy_eq (hitem : NonIncreasing item) :
    sepBy item sep = sepByTurn item sep (sepBy item sep) := by
  funext s
  change sepByTurn item sep (sepByFuel item sep s.length) s = _
  simp only [sepByTurn, sepBy]
  split
  · rfl
  · rfl
  · next v c rest hread =>
    have hlen : rest.length + 1 ≤ s.length := by simpa using hitem _ _ _ hread
    rw [sepByFuel_eq hitem (show rest.length < s.length by omega)
      (show rest.length < rest.length + 1 by omega)]

private theorem StableBefore.sepByFuel (hitem : StableBefore (fun c => sep c ∨ stop c) item)
    (fuel : Nat) : StableBefore stop (sepByFuel item sep fuel) := by
  intro s v c rest hr hc t
  induction fuel generalizing s v with
  | zero => simp [Reader.sepByFuel] at hr
  | succ fuel ih =>
    simp only [Reader.sepByFuel, sepByTurn] at hr ⊢
    split at hr
    · exact nomatch hr
    · simp at hr
    · next x d left hread =>
      split at hr
      · next hsep =>
        obtain ⟨⟨xs, left'⟩, hxs, heq⟩ := Option.map_eq_some_iff.mp hr
        obtain ⟨rfl, rfl⟩ := Prod.mk.inj heq
        -- the item stopped at a separator, the rest of the list is shorter
        rw [hitem _ _ _ _ hread (.inl hsep) t]
        simp only [List.cons_append, hsep, if_true, ih _ _ hxs, Option.map_some]
      · next hsep =>
        obtain ⟨rfl, heq⟩ := Prod.mk.inj (Option.some.inj hr)
        obtain ⟨rfl, rfl⟩ := List.cons.inj heq
        -- the list stopped where the item did
        rw [hitem _ _ _ _ hread (.inr hc) t]
        simp only [List.cons_append, hsep]
        rfl

/-- A separated list is stable in front of `stop` if its items are in front of `stop` and
    of the separators. -/
theorem StableBefore.sepBy (hitem : StableBefore (fun c => sep c ∨ stop c) item) :
    StableBefore stop (sepBy item sep) := by
  intro s v c rest hr hc t
  have hfuel := StableBefore.sepByFuel hitem (s.length + 1) _ _ _ _ hr hc t
  have hmore := sepByFuel_add hfuel t.length
  rw [Reader.sepBy, List.length_append,
    show s.length + t.length + 1 = s.length + 1 + t.length by omega]
  exact hmore

/-- A separated list leaves no more than it was given if its items do not. -/
theorem NonIncreasing.sepBy (hitem : NonIncreasing item) : NonIncreasing (sepBy item sep) := by
  suffices ∀ fuel, NonIncreasing (sepByFuel item sep fuel) by
    intro s v rest hr
    exact this _ _ _ _ hr
  intro fuel
  induction fuel with
  | zero => intro s v rest hr; simp [sepByFuel] at hr
  | succ fuel ih =>
    intro s v rest hr
    simp only [sepByFuel, sepByTurn] at hr
    split at hr
    · exact nomatch hr
    · obtain ⟨rfl, rfl⟩ := Prod.mk.inj (Option.some.inj hr)
      simp
    · next x d left hread =>
      have hlen := hitem _ _ _ hread
      split at hr
      · obtain ⟨⟨xs, left'⟩, hxs, heq⟩ := Option.map_eq_some_iff.mp hr
        obtain ⟨rfl, rfl⟩ := Prod.mk.inj heq
        have hleft := ih _ _ _ hxs
        simp only [List.length_cons] at hlen
        exact hleft.trans (by omega)
      · obtain ⟨rfl, rfl⟩ := Prod.mk.inj (Option.some.inj hr)
        exact hlen

/-- `s` starts with a separated list of items, and no separator follows it. -/
inductive SepBy (item : Reader α β) (sep : α → Bool) : List α → List β → List α → Prop where
  | last {s rest : List α} {v : β} (h : item s = some (v, rest))
      (hstop : ∀ c ∈ rest.head?, sep c = false) : SepBy item sep s [v] rest
  | more {s left rest : List α} {c : α} {v : β} {vs : List β} (h : item s = some (v, c :: left))
      (hsep : sep c = true) (htail : SepBy item sep left vs rest) : SepBy item sep s (v :: vs) rest

/-- The loop reads exactly the separated lists. -/
theorem sepBy_eq_some_iff (hitem : NonIncreasing item) {s rest : List α} {vs : List β} :
    sepBy item sep s = some (vs, rest) ↔ SepBy item sep s vs rest := by
  constructor
  · intro h
    -- every turn takes at least the separator
    induction hn : s.length using Nat.strong_induction_on generalizing s vs with
    | _ n ih =>
      rw [sepBy_eq hitem, sepByTurn] at h
      split at h
      · exact nomatch h
      · next v hread =>
        cases h
        exact .last hread nofun
      · next v c left hread =>
        have hlen : left.length + 1 ≤ s.length := by simpa using hitem _ _ _ hread
        split at h
        · next hsep =>
          obtain ⟨⟨tail, left'⟩, htail, heq⟩ := Option.map_eq_some_iff.mp h
          cases heq
          exact .more hread hsep (ih left.length (by omega) htail rfl)
        · next hsep =>
          cases h
          refine .last hread fun d hd => ?_
          cases hd
          exact Bool.eq_false_iff.mpr hsep
  · intro h
    induction h with
    | @last s rest v h hstop =>
      rw [sepBy_eq hitem, sepByTurn, h]
      cases rest with
      | nil => rfl
      | cons c rest => simp only [hstop c rfl, Bool.false_eq_true, if_false]
    | more h hsep htail ih =>
      rw [sepBy_eq hitem, sepByTurn, h]
      simp only [hsep, if_true, ih, Option.map_some]

end Reader
