import Mathlib.Data.List.Forall2

/-!
# What follows from success

A computation that may fail is taken apart here by its success: each of its steps has
succeeded, and the result is that of the last one. Computations in different surroundings are
compared by what they give when they succeed.

## Main definitions

* `Except.Meets`: two computations that cannot have different results, and a third one that has
  the result of both.

## Main results

* `Except.bind_eq_ok`, `Except.map_eq_ok`: one step and the rest.
* `Except.mapM_eq_ok`, `Except.exists_mapM_eq_ok`, `Except.exists_of_mapM_eq_ok`: a step for each
  member of a list.
* `Except.foldlM_induction`, `Except.exists_foldlM_eq_ok`: one step after the other.
* `Except.bind_eq_error`, `Except.exists_of_mapM_eq_error`: the step that fails.
* `Except.toOption_bind`, `Except.toOption_mapM`: results without the errors.
* `Except.Meets.bind`, `Except.Meets.mapM`: steps in different surroundings.
-/

namespace Except

variable {ε α β : Type}

/-- A sequence of two steps succeeds if both of them do. -/
theorem bind_eq_ok {x : Except ε α} {f : α → Except ε β} {b : β} :
    (x >>= f) = .ok b ↔ ∃ a, x = .ok a ∧ f a = .ok b := by
  cases x with
  | error => exact ⟨nofun, nofun⟩
  | ok a => exact ⟨fun h => ⟨a, rfl, h⟩, fun ⟨_, ha, h⟩ => Except.ok.inj ha ▸ h⟩

theorem exists_bind_eq_ok {x : Except ε α} {f : α → Except ε β} :
    (∃ b, (x >>= f) = .ok b) ↔ ∃ a, x = .ok a ∧ ∃ b, f a = .ok b := by
  simp only [bind_eq_ok]
  exact ⟨fun ⟨b, a, ha, hb⟩ => ⟨a, ha, b, hb⟩, fun ⟨a, ha, b, hb⟩ => ⟨b, a, ha, hb⟩⟩

theorem map_eq_ok {x : Except ε α} {f : α → β} {b : β} :
    x.map f = .ok b ↔ ∃ a, x = .ok a ∧ f a = b := by
  cases x with
  | error => exact ⟨nofun, nofun⟩
  | ok a => simp [Except.map]

theorem mapError_eq_ok {ε' : Type} {x : Except ε α} {f : ε → ε'} {a : α} :
    x.mapError f = .ok a ↔ x = .ok a := by
  cases x with
  | error => exact ⟨nofun, nofun⟩
  | ok a => simp [Except.mapError]

/-- A step for each member succeeds if all of them do, with the results in order. -/
theorem mapM_eq_ok {f : α → Except ε β} : {as : List α} → {bs : List β} →
    (as.mapM f = .ok bs ↔ List.Forall₂ (fun a b => f a = .ok b) as bs)
  | [], bs => by
      rw [List.mapM_nil]
      constructor
      · rintro ⟨⟩
        exact .nil
      · rintro ⟨⟩
        rfl
  | a :: as, bs => by
      rw [List.mapM_cons, bind_eq_ok]
      constructor
      · rintro ⟨b, hb, h⟩
        obtain ⟨cs, hcs, ⟨⟩⟩ := bind_eq_ok.1 h
        exact .cons hb (mapM_eq_ok.1 hcs)
      · rintro (_ | ⟨hb, hbs⟩)
        exact ⟨_, hb, bind_eq_ok.2 ⟨_, mapM_eq_ok.2 hbs, rfl⟩⟩

/-- Each result is that of a step. -/
theorem exists_mem_of_mapM_eq_ok {f : α → Except ε β} {as : List α} {bs : List β}
    (h : as.mapM f = .ok bs) : ∀ b ∈ bs, ∃ a ∈ as, f a = .ok b := by
  induction mapM_eq_ok.1 h with
  | nil => exact nofun
  | @cons a b as bs ha hrest ih =>
    intro c hc
    obtain rfl | hc := List.mem_cons.1 hc
    · exact ⟨a, List.mem_cons_self, ha⟩
    · obtain ⟨a', ha', hfa⟩ := ih (mapM_eq_ok.2 hrest) c hc
      exact ⟨a', List.mem_cons_of_mem _ ha', hfa⟩

/-- If every step succeeds, the results are those of the steps. -/
theorem mapM_eq_map {f : α → Except ε β} {g : α → β} {as : List α}
    (h : ∀ a ∈ as, f a = .ok (g a)) : as.mapM f = .ok (as.map g) := by
  rw [mapM_eq_ok, List.forall₂_map_right_iff, List.forall₂_same]
  exact h

/-- If a step succeeds for each member, the results are those of a function. -/
theorem exists_of_mapM_eq_ok [Inhabited β] {f : α → Except ε β} {as : List α} {bs : List β}
    (h : as.mapM f = .ok bs) : ∃ g, (∀ a ∈ as, f a = .ok (g a)) ∧ bs = as.map g := by
  refine ⟨fun a => (f a).toOption.getD default, ?_⟩
  induction mapM_eq_ok.1 h with
  | nil => exact ⟨nofun, rfl⟩
  | @cons a b as bs ha hrest ih =>
    obtain ⟨hmem, rfl⟩ := ih (mapM_eq_ok.2 hrest)
    have hb : b = (f a).toOption.getD default := by
      rw [ha]
      rfl
    exact ⟨List.forall_mem_cons.2 ⟨ha.trans (congrArg _ hb), hmem⟩, congrArg (· :: _) hb⟩

/-- A step for each member succeeds if the steps do. -/
theorem exists_mapM_eq_ok {f : α → Except ε β} {as : List α} :
    (∃ bs, as.mapM f = .ok bs) ↔ ∀ a ∈ as, ∃ b, f a = .ok b := by
  induction as with
  | nil => exact ⟨fun _ => nofun, fun _ => ⟨[], rfl⟩⟩
  | cons a as ih =>
    rw [List.forall_mem_cons, ← ih]
    simp only [List.mapM_cons, bind_eq_ok]
    constructor
    · rintro ⟨_, b, hb, bs, hbs, ⟨⟩⟩
      exact ⟨⟨b, hb⟩, bs, hbs⟩
    · rintro ⟨⟨b, hb⟩, bs, hbs⟩
      exact ⟨_, b, hb, bs, hbs, rfl⟩

/-- What holds at first and is kept by each step holds in the end. It may speak of the members that
have been gone through. -/
theorem foldlM_induction {f : β → α → Except ε β} {motive : List α → β → Prop} {as : List α}
    {b b' : β} (h : as.foldlM f b = .ok b') (hstart : motive [] b)
    (hstep : ∀ done a b b', motive done b → f b a = .ok b' → motive (done ++ [a]) b') :
    motive as b' := by
  suffices hrest : ∀ done, motive done b → motive (done ++ as) b' from hrest [] hstart
  clear hstart
  intro done hdone
  induction as generalizing b done with
  | nil =>
    obtain rfl : b = b' := Except.ok.inj h
    rwa [List.append_nil]
  | cons a as ih =>
    rw [List.foldlM_cons] at h
    obtain ⟨next, hnext, h⟩ := bind_eq_ok.1 h
    rw [List.append_cons]
    exact ih h (done ++ [a]) (hstep done a b next hdone hnext)

/-- A step for each member, one after the other, succeeds if the steps do, provided that it does
not matter where a step starts. -/
theorem exists_foldlM_eq_ok {f : β → α → Except ε β} {good : α → Prop}
    (hstep : ∀ b a, (∃ b', f b a = .ok b') ↔ good a) {as : List α} {b : β} :
    (∃ b', as.foldlM f b = .ok b') ↔ ∀ a ∈ as, good a := by
  induction as generalizing b with
  | nil => exact ⟨fun _ => nofun, fun _ => ⟨b, rfl⟩⟩
  | cons a as ih =>
    rw [List.forall_mem_cons, ← hstep b a, List.foldlM_cons]
    constructor
    · rintro ⟨b', h⟩
      obtain ⟨next, hnext, h⟩ := bind_eq_ok.1 h
      exact ⟨⟨next, hnext⟩, ih.1 ⟨b', h⟩⟩
    · rintro ⟨⟨next, hnext⟩, has⟩
      obtain ⟨b', h⟩ := ih.2 has
      exact ⟨b', bind_eq_ok.2 ⟨next, hnext, h⟩⟩

/-! ### Failures -/

theorem map_eq_error {x : Except ε α} {f : α → β} {e : ε} :
    x.map f = .error e ↔ x = .error e := by
  cases x with
  | error e' => rw [Except.map, Except.error.injEq, Except.error.injEq]
  | ok a => exact ⟨nofun, nofun⟩

theorem mapError_eq_error {ε' : Type} {x : Except ε α} {f : ε → ε'} {e' : ε'} :
    x.mapError f = .error e' ↔ ∃ e, x = .error e ∧ f e = e' := by
  cases x with
  | error e => simp [Except.mapError]
  | ok a => exact ⟨nofun, nofun⟩

/-- A sequence of two steps fails if the first one does, or the second one after it. -/
theorem bind_eq_error {x : Except ε α} {f : α → Except ε β} {e : ε} :
    (x >>= f) = .error e ↔ x = .error e ∨ ∃ a, x = .ok a ∧ f a = .error e := by
  cases x with
  | error e' =>
    refine ⟨fun h => .inl (congrArg _ (Except.error.inj h)), ?_⟩
    rintro (h | ⟨_, h, _⟩)
    · exact congrArg _ (Except.error.inj h)
    · exact nomatch h
  | ok a =>
    refine ⟨fun h => .inr ⟨a, rfl, h⟩, ?_⟩
    rintro (h | ⟨_, ⟨⟩, h⟩)
    · exact nomatch h
    · exact h

/-- If a step for each member fails, then one of the steps does. -/
theorem exists_of_mapM_eq_error {f : α → Except ε β} {as : List α} {e : ε}
    (h : as.mapM f = .error e) : ∃ a ∈ as, f a = .error e := by
  induction as with
  | nil => exact nomatch h
  | cons a as ih =>
    rw [List.mapM_cons, bind_eq_error] at h
    obtain h | ⟨b, -, h⟩ := h
    · exact ⟨a, List.mem_cons_self, h⟩
    · obtain h | ⟨bs, -, h⟩ := bind_eq_error.1 h
      · obtain ⟨a', ha', h⟩ := ih h
        exact ⟨a', List.mem_cons_of_mem _ ha', h⟩
      · exact nomatch h

/-- If steps for all members, one after the other, fail, then one of the steps does. -/
theorem exists_of_foldlM_eq_error {f : β → α → Except ε β} {as : List α} {b : β} {e : ε}
    (h : as.foldlM f b = .error e) : ∃ b', ∃ a ∈ as, f b' a = .error e := by
  induction as generalizing b with
  | nil => exact nomatch h
  | cons a as ih =>
    rw [List.foldlM_cons] at h
    obtain h | ⟨next, -, h⟩ := bind_eq_error.1 h
    · exact ⟨b, a, List.mem_cons_self, h⟩
    · obtain ⟨b', a', ha', h⟩ := ih h
      exact ⟨b', a', List.mem_cons_of_mem _ ha', h⟩

/-! ### Results without errors -/

theorem toOption_eq_some_iff {x : Except ε α} {a : α} : x.toOption = some a ↔ x = .ok a := by
  cases x with
  | error => exact ⟨nofun, nofun⟩
  | ok b => simp [Except.toOption]

theorem toOption_bind (x : Except ε α) (f : α → Except ε β) :
    (x >>= f).toOption = x.toOption.bind fun a => (f a).toOption := by
  cases x <;> rfl

theorem toOption_mapM (f : α → Except ε β) (as : List α) :
    (as.mapM f).toOption = as.mapM fun a => (f a).toOption := by
  induction as with
  | nil => rfl
  | cons a as ih =>
    rw [List.mapM_cons, List.mapM_cons, toOption_bind]
    refine congrArg _ (funext fun b => ?_)
    rw [toOption_bind, ih]
    rfl

/-! ### Different surroundings -/

/-- If two computations both succeed, they have the same result, and a third one has it too. -/
structure Meets (common p q : Except ε α) : Prop where
  ok : ∀ {x y}, p = .ok x → q = .ok y → x = y ∧ common = .ok x

theorem Meets.refl (p : Except ε α) : p.Meets p p :=
  ⟨fun hx hy => ⟨Except.ok.inj (hx.symm.trans hy), hx⟩⟩

theorem Meets.of_error {c p q : Except ε α} {e : ε} (h : p = .error e) : c.Meets p q :=
  ⟨fun hp => nomatch h.symm.trans hp⟩

/-- Steps in a row meet if the first steps do, and the next ones do after the same result. -/
theorem Meets.bind {c p q : Except ε α} {c' p' q' : α → Except ε β} (h : c.Meets p q)
    (hnext : ∀ a, (c' a).Meets (p' a) (q' a)) : (c >>= c').Meets (p >>= p') (q >>= q') := by
  refine ⟨fun hp hq => ?_⟩
  obtain ⟨a, ha, hp⟩ := bind_eq_ok.1 hp
  obtain ⟨a', ha', hq⟩ := bind_eq_ok.1 hq
  obtain ⟨rfl, hc⟩ := h.ok ha ha'
  obtain ⟨heq, hx⟩ := (hnext a).ok hp hq
  exact ⟨heq, bind_eq_ok.2 ⟨a, hc, hx⟩⟩

theorem Meets.mapError {ε' : Type} {c p q : Except ε α} (h : c.Meets p q) (f : ε → ε') :
    (c.mapError f).Meets (p.mapError f) (q.mapError f) :=
  ⟨fun hp hq => (h.ok (mapError_eq_ok.1 hp) (mapError_eq_ok.1 hq)).imp_right mapError_eq_ok.2⟩

theorem Meets.mapM {f g k : α → Except ε β} {as : List α}
    (h : ∀ a ∈ as, (f a).Meets (g a) (k a)) : (as.mapM f).Meets (as.mapM g) (as.mapM k) := by
  induction as with
  | nil =>
    simp only [List.mapM_nil]
    exact .refl _
  | cons a as ih =>
    obtain ⟨ha, has⟩ := List.forall_mem_cons.1 h
    simp only [List.mapM_cons]
    exact ha.bind fun b => (ih has).bind fun bs => .refl _

end Except
