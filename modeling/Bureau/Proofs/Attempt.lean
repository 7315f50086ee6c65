import Bureau.Error

/-!
How attempts run: each way of putting one together in terms of the outcomes and states of its parts.
-/

set_option autoImplicit false

namespace Bureau.Attempt

variable {σ α β : Type}

@[simp] theorem runOn_pure (a : α) (s : σ) : runOn (pure a : Attempt σ α) s = (.ok a, s) := rfl

@[simp] theorem runOn_throw (c : Crash) (s : σ) :
    runOn (throw c : Attempt σ α) s = (.error c, s) := rfl

@[simp] theorem runOn_get (s : σ) : runOn (get : Attempt σ σ) s = (.ok s, s) := rfl

@[simp] theorem runOn_monadState_get (s : σ) :
    runOn (MonadState.get : Attempt σ σ) s = (.ok s, s) := rfl

@[simp] theorem runOn_set (s t : σ) : runOn (set t : Attempt σ PUnit) s = (.ok ⟨⟩, t) := rfl

@[simp] theorem runOn_modify (f : σ → σ) (s : σ) :
    runOn (modify f : Attempt σ PUnit) s = (.ok ⟨⟩, f s) := rfl

@[simp] theorem runOn_liftM (e : Except Crash α) (s : σ) :
    runOn (liftM e : Attempt σ α) s = (e, s) := rfl

@[simp] theorem runOn_monadLift (e : Except Crash α) (s : σ) :
    runOn (MonadLift.monadLift e : Attempt σ α) s = (e, s) := rfl

theorem runOn_bind (x : Attempt σ α) (f : α → Attempt σ β) (s : σ) :
    runOn (x >>= f) s =
      match runOn x s with
      | (.ok a, t) => runOn (f a) t
      | (.error c, t) => (.error c, t) := by
  change StateT.run (ExceptT.run (x >>= f)) s = _
  simp only [ExceptT.run_bind, StateT.run_bind, runOn]
  rcases StateT.run (ExceptT.run x) s with ⟨a | c, t⟩ <;> rfl

theorem runOn_bind_ok {x : Attempt σ α} {s t : σ} {a : α} (h : runOn x s = (.ok a, t))
    (f : α → Attempt σ β) : runOn (x >>= f) s = runOn (f a) t := by
  rw [runOn_bind, h]

theorem runOn_bind_pure_snd (x : Attempt σ α) (f : α → β) (s : σ) :
    (runOn (x >>= fun a => pure (f a)) s).2 = (runOn x s).2 := by
  rw [runOn_bind]
  rcases runOn x s with ⟨c | a, t⟩ <;> rfl

theorem ok_bind {ε : Type} (a : α) (f : α → Except ε β) : (Except.ok a >>= f) = f a := rfl

theorem exists_of_bind_eq_ok {ε : Type} {x : Except ε α} {f : α → Except ε β} {b : β}
    (h : (x >>= f) = .ok b) : ∃ a, x = .ok a ∧ f a = .ok b := by
  cases x with
  | error e => cases h
  | ok a => exact ⟨a, rfl, h⟩

theorem unless_eq_ok {c : Crash} {a? : Option α} {a : α} (h : c.unless a? = .ok a) :
    a? = some a := by
  cases a? with
  | none => cases h
  | some b =>
      cases h
      rfl

def ofRun (run : σ → Except Crash α × σ) : Attempt σ α := ExceptT.mk (m := StateM σ) run

@[simp] theorem runOn_ofRun (run : σ → Except Crash α × σ) (s : σ) :
    runOn (ofRun run) s = run s := rfl

def andThen (x : Except Crash α × σ) (next : α → σ → Except Crash β × σ) : Except Crash β × σ :=
  match x with
  | (.ok a, s) => next a s
  | (.error c, s) => (.error c, s)

@[simp] theorem andThen_ok (a : α) (s : σ) (next : α → σ → Except Crash β × σ) :
    andThen (.ok a, s) next = next a s := rfl

@[simp] theorem andThen_error (c : Crash) (s : σ) (next : α → σ → Except Crash β × σ) :
    andThen (.error c, s) next = (.error c, s) := rfl

theorem andThen_eq_ok_iff {x : Except Crash α × σ} {next : α → σ → Except Crash β × σ} {b : β}
    {t : σ} : andThen x next = (.ok b, t) ↔ ∃ a s, x = (.ok a, s) ∧ next a s = (.ok b, t) := by
  obtain ⟨c | a, s⟩ := x
  · constructor
    · intro h
      cases h
    · rintro ⟨a, s', h, -⟩
      cases h
  · constructor
    · exact fun h => ⟨a, s, rfl, h⟩
    · rintro ⟨a', s', h, hnext⟩
      cases h
      exact hnext

theorem andThen_andThen {γ : Type} (x : Except Crash α × σ) (f : α → σ → Except Crash β × σ)
    (g : β → σ → Except Crash γ × σ) :
    andThen (andThen x f) g = andThen x fun a s => andThen (f a s) g := by
  rcases x with ⟨a | c, s⟩ <;> rfl

theorem rel_andThen {R : σ → σ → Prop} (htrans : ∀ r s t, R r s → R s t → R r t) {s : σ}
    {x : Except Crash α × σ} (hx : R s x.2) {next : α → σ → Except Crash β × σ}
    (hnext : ∀ a t, R t (next a t).2) : R s (andThen x next).2 := by
  obtain ⟨c | a, t⟩ := x
  · exact hx
  · exact htrans s t _ hx (hnext a t)

theorem runOn_bind_eq_andThen (x : Attempt σ α) (f : α → Attempt σ β) (s : σ) :
    runOn (x >>= f) s = andThen (runOn x s) fun a => runOn (f a) := by
  rw [runOn_bind]
  rcases runOn x s with ⟨a | c, t⟩ <;> rfl

end Bureau.Attempt
