import Mathlib.Data.List.Forall2

/-!
# Outcomes

A computation in `Except` succeeds when each of its steps does.  The first
lemmas take such a computation apart from its result.

`FailsWith q` says of a computation that it fails for no other reasons than
those in `q`.  `Related q r` compares two computations: both succeed, with
results that are related by `r`, or both fail, for reasons that are related by
`q`.
-/

namespace LabelTemplate.Outcome

variable {ε ε' α β : Type}

theorem bind_eq_ok {x : Except ε α} {f : α → Except ε β} {b : β} :
    x >>= f = .ok b ↔ ∃ a, x = .ok a ∧ f a = .ok b := by
  cases x with
  | error e =>
    constructor
    · intro h
      cases h
    · rintro ⟨a, ha, -⟩
      cases ha
  | ok a =>
    constructor
    · intro h
      exact ⟨a, rfl, h⟩
    · rintro ⟨a', ha, h⟩
      cases ha
      exact h

theorem bind_eq_error {x : Except ε α} {f : α → Except ε β} {e : ε} :
    x >>= f = .error e ↔ x = .error e ∨ ∃ a, x = .ok a ∧ f a = .error e := by
  cases x with
  | error e' =>
    constructor
    · intro h
      cases h
      exact .inl rfl
    · rintro (h | ⟨a, ha, -⟩)
      · cases h
        rfl
      · cases ha
  | ok a =>
    constructor
    · intro h
      exact .inr ⟨a, rfl, h⟩
    · rintro (h | ⟨a', ha, h⟩)
      · cases h
      · cases ha
        exact h

theorem map_eq_ok {x : Except ε α} {f : α → β} {b : β} :
    x.map f = .ok b ↔ ∃ a, x = .ok a ∧ f a = b := by
  cases x <;> simp [Except.map]

theorem mapError_eq_ok {x : Except ε α} {f : ε → ε'} {a : α} :
    x.mapError f = .ok a ↔ x = .ok a := by
  cases x <;> simp [Except.mapError]

theorem mapError_eq_error {x : Except ε α} {f : ε → ε'} {e' : ε'} :
    x.mapError f = .error e' ↔ ∃ e, x = .error e ∧ f e = e' := by
  cases x <;> simp [Except.mapError]

theorem toOption_eq_some {x : Except ε α} {a : α} : x.toOption = some a ↔ x = .ok a := by
  cases x <;> simp [Except.toOption]

theorem eq_ok_getD {x : Except ε α} (h : x.toOption.isSome = true) (a : α) :
    x = .ok (x.toOption.getD a) := by
  cases x with
  | error e => cases h
  | ok b => rfl

/-- What every step of a fold keeps holds after the fold. -/
theorem foldlM_keeps {P : β → Prop} {f : β → α → Except ε β} {xs : List α} {b b' : β}
    (hstep : ∀ x ∈ xs, ∀ c c', P c → f c x = .ok c' → P c') (hb : P b)
    (h : xs.foldlM f b = .ok b') : P b' := by
  induction xs generalizing b with
  | nil =>
    cases h
    exact hb
  | cons x xs ih =>
    rw [List.foldlM_cons] at h
    obtain ⟨c, hc, h⟩ := bind_eq_ok.1 h
    exact ih (fun y hy => hstep y (List.mem_cons_of_mem _ hy))
      (hstep x List.mem_cons_self b c hb hc) h

/-- A fold fails at one of the items, after those in front of it. -/
theorem exists_of_foldlM_eq_error {f : β → α → Except ε β} {xs : List α} {b : β} {e : ε}
    (h : xs.foldlM f b = .error e) :
    ∃ front x back c, xs = front ++ x :: back ∧ front.foldlM f b = .ok c ∧ f c x = .error e := by
  induction xs generalizing b with
  | nil => cases h
  | cons x xs ih =>
    rw [List.foldlM_cons] at h
    obtain h | ⟨c, hc, h⟩ := bind_eq_error.1 h
    · exact ⟨[], x, xs, b, rfl, rfl, h⟩
    · obtain ⟨front, y, back, c', rfl, hfront, hy⟩ := ih h
      refine ⟨x :: front, y, back, c', rfl, ?_, hy⟩
      rw [List.foldlM_cons, hc]
      exact hfront

/-- A list whose items are mapped in order gives a list related to it item by
item. -/
theorem forall₂_of_mapM {f : α → Except ε β} {xs : List α} {ys : List β}
    (h : xs.mapM f = .ok ys) : List.Forall₂ (fun x y => f x = .ok y) xs ys := by
  induction xs generalizing ys with
  | nil =>
    cases h
    exact .nil
  | cons x xs ih =>
    rw [List.mapM_cons] at h
    obtain ⟨y, hy, h⟩ := bind_eq_ok.1 h
    obtain ⟨ys', hys, h⟩ := bind_eq_ok.1 h
    cases h
    exact .cons hy (ih hys)

theorem mapM_of_forall₂ {f : α → Except ε β} {xs : List α} {ys : List β}
    (h : List.Forall₂ (fun x y => f x = .ok y) xs ys) : xs.mapM f = .ok ys := by
  induction h with
  | nil => rfl
  | cons hxy _ ih =>
    rw [List.mapM_cons, hxy, ih]
    rfl

/-- Items that are each related to something are related item by item. -/
theorem exists_forall₂ {r : α → β → Prop} {xs : List α} :
    (∃ ys, List.Forall₂ r xs ys) ↔ ∀ x ∈ xs, ∃ y, r x y := by
  induction xs with
  | nil => simp
  | cons x xs ih =>
    rw [List.forall_mem_cons, ← ih]
    constructor
    · rintro ⟨_, hall⟩
      obtain ⟨y, ys, hy, hys, -⟩ := List.forall₂_cons_left_iff.1 hall
      exact ⟨⟨y, hy⟩, ys, hys⟩
    · rintro ⟨⟨y, hy⟩, ys, hys⟩
      exact ⟨y :: ys, .cons hy hys⟩

/-- A list is mapped in order if each of its items can be. -/
theorem exists_mapM_eq_ok_iff {f : α → Except ε β} {xs : List α} :
    (∃ ys, xs.mapM f = .ok ys) ↔ ∀ x ∈ xs, ∃ y, f x = .ok y := by
  rw [← exists_forall₂]
  exact ⟨fun ⟨ys, h⟩ => ⟨ys, forall₂_of_mapM h⟩, fun ⟨ys, h⟩ => ⟨ys, mapM_of_forall₂ h⟩⟩

theorem mapM_congr {f g : α → Except ε β} {xs : List α} (h : ∀ x ∈ xs, f x = g x) :
    xs.mapM f = xs.mapM g := by
  induction xs with
  | nil => rfl
  | cons x xs ih =>
    rw [List.mapM_cons, List.mapM_cons, h x List.mem_cons_self,
      ih fun y hy => h y (List.mem_cons_of_mem _ hy)]

theorem mem_of_mapM {f : α → Except ε β} {xs : List α} {ys : List β} (h : xs.mapM f = .ok ys)
    {y : β} : y ∈ ys ↔ ∃ x ∈ xs, f x = .ok y := by
  have hall := forall₂_of_mapM h
  clear h
  induction hall with
  | nil => simp
  | cons hxy _ ih => simp [ih, hxy, eq_comm]

theorem exists_of_filterAuxM {p : α → Except ε Bool} {xs acc ys : List α}
    (h : xs.filterAuxM p acc = .ok ys) :
    ∃ kept : List α, kept.Sublist xs ∧ ys = kept.reverse ++ acc := by
  induction xs generalizing acc with
  | nil =>
    cases h
    exact ⟨[], .slnil, rfl⟩
  | cons x xs ih =>
    obtain ⟨b, -, h⟩ := bind_eq_ok.1 h
    obtain ⟨kept, hkept, rfl⟩ := ih h
    cases b with
    | false => exact ⟨kept, hkept.cons x, rfl⟩
    | true => exact ⟨x :: kept, hkept.cons_cons x, by simp⟩

theorem filterAuxM_append (p : α → Except ε Bool) (xs acc : List α) :
    xs.filterAuxM p acc = (xs.filterAuxM p []).map (· ++ acc) := by
  induction xs generalizing acc with
  | nil => rfl
  | cons x xs ih =>
    simp only [List.filterAuxM]
    cases p x with
    | error e => rfl
    | ok b =>
      cases b with
      | false => exact ih acc
      | true =>
        refine (ih (x :: acc)).trans ?_
        refine Eq.trans ?_ (congrArg (Except.map (· ++ acc)) (ih [x]).symm)
        cases xs.filterAuxM p [] with
        | error e => rfl
        | ok kept => simp [Except.map]

theorem filterM_cons (p : α → Except ε Bool) (x : α) (xs : List α) :
    (x :: xs).filterM p = p x >>= fun keep => xs.filterM p >>= fun rest =>
      .ok (if keep then x :: rest else rest) := by
  unfold List.filterM
  simp only [List.filterAuxM]
  cases p x with
  | error e => rfl
  | ok b =>
    cases b with
    | false =>
      change (xs.filterAuxM p [] >>= fun ys => pure ys.reverse) = _
      cases xs.filterAuxM p [] <;> rfl
    | true =>
      change (xs.filterAuxM p [x] >>= fun ys => pure ys.reverse) = _
      rw [filterAuxM_append]
      cases xs.filterAuxM p [] with
      | error e => rfl
      | ok kept =>
        change Except.ok (kept ++ [x]).reverse = Except.ok (x :: kept.reverse)
        simp

theorem filterM_append (p : α → Except ε Bool) (xs ys : List α) :
    (xs ++ ys).filterM p = xs.filterM p >>= fun kept => ys.filterM p >>= fun rest =>
      .ok (kept ++ rest) := by
  induction xs with
  | nil =>
    change ys.filterM p = ys.filterM p >>= fun rest => .ok ([] ++ rest)
    cases ys.filterM p <;> rfl
  | cons x xs ih =>
    rw [List.cons_append, filterM_cons, filterM_cons, ih]
    cases p x with
    | error e => rfl
    | ok keep =>
      cases xs.filterM p with
      | error e => rfl
      | ok kept => cases ys.filterM p <;> cases keep <;> rfl

/-- Lists that are tested one by one and then joined. -/
theorem mapM_filterM {γ : Type} (p : α → Except ε Bool) (f : β → List α) (xs : List β)
    (next : List α → Except ε γ) :
    (xs.mapM fun x => (f x).filterM p) >>= (fun kept => next kept.flatten) =
      (xs.flatMap f).filterM p >>= next := by
  induction xs generalizing next with
  | nil => rfl
  | cons x xs ih =>
    rw [List.mapM_cons, List.flatMap_cons, filterM_append]
    cases (f x).filterM p with
    | error e => rfl
    | ok kept =>
      refine Eq.trans ?_ ((ih fun rest => next (kept ++ rest)).trans ?_)
      · cases xs.mapM fun x => (f x).filterM p <;> rfl
      · cases (xs.flatMap f).filterM p <;> rfl

/-- A test that never fails. -/
theorem filterM_of_ok {p : α → Except ε Bool} {test : α → Bool} (h : ∀ x, p x = .ok (test x))
    (xs : List α) : xs.filterM p = .ok (xs.filter test) := by
  induction xs with
  | nil => rfl
  | cons x xs ih =>
    rw [filterM_cons, h, ih, List.filter_cons]
    rfl

/-- A test that always fails. -/
theorem filterM_of_error {p : α → Except ε Bool} {e : ε} (h : ∀ x, p x = .error e)
    (xs : List α) : xs.filterM p = if xs = [] then .ok [] else .error e := by
  cases xs with
  | nil => rfl
  | cons x xs =>
    rw [filterM_cons, h]
    rfl

/-- A test of each item only leaves items out. -/
theorem sublist_of_filterM {p : α → Except ε Bool} {xs ys : List α} (h : xs.filterM p = .ok ys) :
    ys.Sublist xs := by
  obtain ⟨found, hfound, h⟩ := bind_eq_ok.1 h
  obtain ⟨kept, hkept, rfl⟩ := exists_of_filterAuxM hfound
  cases h
  simpa using hkept

theorem filterAuxM_map {p : α → Except ε Bool} {p' : β → Except ε Bool} {f : α → β}
    (h : ∀ a, p' (f a) = p a) (xs acc : List α) :
    (xs.map f).filterAuxM p' (acc.map f) = (xs.filterAuxM p acc).map (List.map f) := by
  induction xs generalizing acc with
  | nil => rfl
  | cons x xs ih =>
    simp only [List.map_cons, List.filterAuxM, h]
    cases p x with
    | error e => rfl
    | ok b =>
      cases b with
      | false => exact ih acc
      | true => exact ih (x :: acc)

/-- A test that looks at the items through a function. -/
theorem filterM_map {p : α → Except ε Bool} {p' : β → Except ε Bool} {f : α → β}
    (h : ∀ a, p' (f a) = p a) (xs : List α) :
    (xs.map f).filterM p' = (xs.filterM p).map (List.map f) := by
  have haux := filterAuxM_map h xs []
  rw [List.map_nil] at haux
  unfold List.filterM
  rw [haux]
  cases xs.filterAuxM p [] with
  | error e => rfl
  | ok kept => exact congrArg Except.ok List.map_reverse.symm

/-- A fold that only collects what the items are mapped to. -/
theorem foldlM_map {γ : Type} (f : α → Except ε β) (g : γ → β → γ) (xs : List α) (c : γ) :
    xs.foldlM (fun c x => (f x).map (g c)) c = (xs.mapM f).map (·.foldl g c) := by
  induction xs generalizing c with
  | nil => rfl
  | cons x xs ih =>
    rw [List.foldlM_cons, List.mapM_cons]
    cases f x with
    | error e => exact Eq.refl (Except.error e)
    | ok y =>
      refine (ih (g c y)).trans ?_
      cases xs.mapM f with
      | error e => exact Eq.refl (Except.error e)
      | ok ys => exact Eq.refl (Except.ok (ys.foldl g (g c y)))

/-- Lists that are related item by item and have the same images have the
same image at each item. -/
theorem exists_related {γ : Type} {r : α → β → Prop} {f : α → γ} {g : β → γ} {xs : List α}
    {ys : List β} (h : List.Forall₂ r xs ys) (hsame : ys.map g = xs.map f) :
    ∀ x ∈ xs, ∃ y, r x y ∧ g y = f x := by
  induction h with
  | nil => simp
  | cons hxy _ ih =>
    rw [List.map_cons, List.map_cons, List.cons.injEq] at hsame
    intro x hx
    rcases List.mem_cons.1 hx with rfl | hx
    · exact ⟨_, hxy, hsame.1⟩
    · exact ih hsame.2 x hx

/-! ## Reasons of failures -/

/-- Why a computation fails, if it does. -/
def failure? : Except ε α → Option ε
  | .ok _ => none
  | .error e => some e

theorem failure?_eq_some {x : Except ε α} {e : ε} : failure? x = some e ↔ x = .error e := by
  cases x <;> simp [failure?]

/-- A computation fails for no other reasons than those in `q`. -/
inductive FailsWith (q : ε → Prop) : Except ε α → Prop where
  | ok (a : α) : FailsWith q (.ok a)
  | error {e : ε} (h : q e) : FailsWith q (.error e)

namespace FailsWith

variable {q : ε → Prop}

theorem of_eq_error {x : Except ε α} {e : ε} (h : FailsWith q x) (hx : x = .error e) : q e := by
  cases h with
  | ok a => cases hx
  | error h =>
    cases hx
    exact h

theorem bind {x : Except ε α} {f : α → Except ε β} (h : FailsWith q x)
    (hnext : ∀ a, FailsWith q (f a)) : FailsWith q (x >>= f) := by
  cases h with
  | ok a => exact hnext a
  | error h => exact .error h

/-- A check at the start of a computation. -/
theorem check {c : Prop} [Decidable c] {e : ε} {f : β → Except ε α} {x : Except ε α} (he : q e)
    (hx : FailsWith q x) : FailsWith q (if c then .error e >>= f else x) := by
  split
  · exact .error he
  · exact hx

theorem map {f : α → β} {x : Except ε α} (h : FailsWith q x) : FailsWith q (x.map f) := by
  cases h with
  | ok a => exact .ok (f a)
  | error h => exact .error h

theorem mapError {p : ε' → Prop} {f : ε → ε'} {x : Except ε α} (h : FailsWith q x)
    (hf : ∀ e, q e → p (f e)) : FailsWith p (x.mapError f) := by
  cases h with
  | ok a => exact .ok a
  | error h => exact .error (hf _ h)

/-- Where every reason is made into one of `p`, what the reasons were does not
matter. -/
theorem mapError_of_forall {p : ε' → Prop} {f : ε → ε'} (x : Except ε α) (hf : ∀ e, p (f e)) :
    FailsWith p (x.mapError f) := by
  cases x with
  | ok a => exact .ok a
  | error e => exact .error (hf e)

theorem foldlM {f : β → α → Except ε β} {xs : List α} {b : β}
    (hstep : ∀ x ∈ xs, ∀ b, FailsWith q (f b x)) : FailsWith q (xs.foldlM f b) := by
  induction xs generalizing b with
  | nil => exact .ok b
  | cons x xs ih =>
    rw [List.foldlM_cons]
    exact (hstep x List.mem_cons_self b).bind fun c =>
      ih fun y hy => hstep y (List.mem_cons_of_mem _ hy)

theorem mapM {f : α → Except ε β} {xs : List α} (hf : ∀ x, FailsWith q (f x)) :
    FailsWith q (xs.mapM f) := by
  induction xs with
  | nil => exact .ok []
  | cons x xs ih =>
    rw [List.mapM_cons]
    exact (hf x).bind fun y => ih.bind fun ys => .ok (y :: ys)

theorem filterAuxM {p : α → Except ε Bool} (hp : ∀ x, FailsWith q (p x)) (xs acc : List α) :
    FailsWith q (xs.filterAuxM p acc) := by
  induction xs generalizing acc with
  | nil => exact .ok acc
  | cons x xs ih => exact (hp x).bind fun b => ih _

theorem filterM {p : α → Except ε Bool} (hp : ∀ x, FailsWith q (p x)) (xs : List α) :
    FailsWith q (xs.filterM p) :=
  (filterAuxM hp xs []).bind fun kept => .ok kept.reverse

end FailsWith

/-! ## Two computations side by side -/

inductive Related (q : ε → ε' → Prop) (r : α → β → Prop) : Except ε α → Except ε' β → Prop where
  | ok {a : α} {b : β} (h : r a b) : Related q r (.ok a) (.ok b)
  | error {e : ε} {e' : ε'} (h : q e e') : Related q r (.error e) (.error e')

/-- Both succeed, with related results, or both fail. -/
abbrev Alike (r : α → β → Prop) : Except ε α → Except ε' β → Prop := Related (fun _ _ => True) r

namespace Related

variable {γ δ : Type} {q : ε → ε' → Prop} {r : α → β → Prop} {r' : γ → δ → Prop}

theorem bind {x : Except ε α} {y : Except ε' β} {f : α → Except ε γ} {g : β → Except ε' δ}
    (h : Related q r x y) (hnext : ∀ a b, r a b → Related q r' (f a) (g b)) :
    Related q r' (x >>= f) (y >>= g) := by
  cases h with
  | ok h => exact hnext _ _ h
  | error h => exact .error h

theorem symm {x : Except ε α} {y : Except ε' β} (h : Related q r x y) :
    Related (fun e' e => q e e') (fun b a => r a b) y x := by
  cases h with
  | ok h => exact .ok h
  | error h => exact .error h

theorem mono {p : ε → ε' → Prop} {s : α → β → Prop} {x : Except ε α} {y : Except ε' β}
    (h : Related q r x y) (he : ∀ e e', q e e' → p e e') (ha : ∀ a b, r a b → s a b) :
    Related p s x y := by
  cases h with
  | ok h => exact .ok (ha _ _ h)
  | error h => exact .error (he _ _ h)

theorem exists_iff {x : Except ε α} {y : Except ε' β} (h : Related q r x y) :
    (∃ a, x = .ok a) ↔ ∃ b, y = .ok b := by
  cases h with
  | ok h => exact iff_of_true ⟨_, rfl⟩ ⟨_, rfl⟩
  | error h => exact iff_of_false (fun ⟨a, ha⟩ => by cases ha) fun ⟨b, hb⟩ => by cases hb

theorem exists_left {x : Except ε α} {b : β} (h : Related q r x (.ok b : Except ε' β)) :
    ∃ a, x = .ok a ∧ r a b := by
  cases h with
  | ok h => exact ⟨_, rfl, h⟩

theorem exists_right {y : Except ε' β} {a : α} (h : Related q r (.ok a : Except ε α) y) :
    ∃ b, y = .ok b ∧ r a b := by
  cases h with
  | ok h => exact ⟨_, rfl, h⟩

/-- What is related are the results. -/
theorem results {x : Except ε α} {y : Except ε' β} (h : Related q r x y) :
    Related q (fun a b => r a b ∧ x = .ok a ∧ y = .ok b) x y := by
  cases h with
  | ok h => exact .ok ⟨h, rfl, rfl⟩
  | error h => exact .error h

theorem map {f : α → γ} {g : β → δ} {x : Except ε α} {y : Except ε' β} (h : Related q r x y)
    (hmap : ∀ a b, r a b → r' (f a) (g b)) : Related q r' (x.map f) (y.map g) := by
  cases h with
  | ok h => exact .ok (hmap _ _ h)
  | error h => exact .error h

/-- The result of one of the two is changed. -/
theorem map_left {r' : γ → β → Prop} {f : α → γ} {x : Except ε α} {y : Except ε' β}
    (h : Related q r x y) (hmap : ∀ a b, r a b → r' (f a) b) :
    Related q r' (x >>= fun a => pure (f a)) y := by
  cases h with
  | ok h => exact .ok (hmap _ _ h)
  | error h => exact .error h

theorem mapError {ζ ζ' : Type} {p : ζ → ζ' → Prop} {f : ε → ζ} {g : ε' → ζ'}
    {x : Except ε α} {y : Except ε' β} (h : Related q r x y)
    (herror : ∀ e e', q e e' → p (f e) (g e')) :
    Related p r (x.mapError f) (y.mapError g) := by
  cases h with
  | ok h => exact .ok h
  | error h => exact .error (herror _ _ h)

theorem of_toOption_eq {x : Except ε α} {y : Except ε' α} (h : x.toOption = y.toOption) :
    Alike Eq x y := by
  cases x with
  | error e =>
    cases y with
    | error e' => exact .error trivial
    | ok b => cases h
  | ok a =>
    cases y with
    | error e' => cases h
    | ok b =>
      cases h
      exact .ok rfl

theorem toOption_eq {x : Except ε α} {y : Except ε' α} (h : Alike Eq x y) :
    x.toOption = y.toOption := by
  cases h with
  | ok h => exact congrArg some h
  | error => rfl

theorem refl {r : α → α → Prop} (hr : ∀ a, r a a) (x : Except ε α) : Alike r x x := by
  cases x with
  | error e => exact .error trivial
  | ok a => exact .ok (hr a)

theorem trans {α' ζ : Type} {s : β → α' → Prop} {t : α → α' → Prop} {x : Except ε α}
    {y : Except ε' β} {z : Except ζ α'} (h : Alike r x y) (h' : Alike s y z)
    (hcompose : ∀ a b c, r a b → s b c → t a c) : Alike t x z := by
  cases h with
  | ok h =>
    cases h' with
    | ok h' => exact .ok (hcompose _ _ _ h h')
  | error =>
    cases h' with
    | error => exact .error trivial

/-- Where a first step fails in one run and a later one in the other, both runs
fail. -/
theorem of_fails {x : Except ε α} {y : Except ε' β} {f : α → Except ε γ} {g : β → Except ε' δ}
    (h : ∃ e, x = .error e) (h' : ∀ b, ∃ e, g b = .error e) : Alike r' (x >>= f) (y >>= g) := by
  obtain ⟨e, rfl⟩ := h
  cases y with
  | error e' => exact .error trivial
  | ok b =>
    obtain ⟨e', he'⟩ := h' b
    change Alike r' (Except.error e) (g b)
    rw [he']
    exact .error trivial

/-- What is related by equality on both sides is equal. -/
theorem eq_iff {x y : Except ε α} : Related Eq Eq x y ↔ x = y := by
  constructor
  · rintro (rfl | rfl) <;> rfl
  · rintro rfl
    cases x with
    | error e => exact .error rfl
    | ok a => exact .ok rfl

/-- Two folds over one list, related after every step. -/
theorem foldlM {f : β → α → Except ε β} {g : γ → α → Except ε' γ} {s : β → γ → Prop}
    {xs : List α} {b : β} {c : γ} (hstart : s b c)
    (hstep : ∀ x ∈ xs, ∀ b c, s b c → Related q s (f b x) (g c x)) :
    Related q s (xs.foldlM f b) (xs.foldlM g c) := by
  induction xs generalizing b c with
  | nil => exact .ok hstart
  | cons x xs ih =>
    rw [List.foldlM_cons, List.foldlM_cons]
    exact (hstep x List.mem_cons_self b c hstart).bind fun b' c' h =>
      ih h fun y hy => hstep y (List.mem_cons_of_mem _ hy)

end Related

end LabelTemplate.Outcome
