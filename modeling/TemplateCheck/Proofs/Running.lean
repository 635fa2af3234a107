/-! Computations that work on a state and may end early, step by step. -/

namespace TemplateCheck
variable {σ ε ε' α β : Type}

theorem run_bind (a : ExceptT ε (StateM σ) α) (f : α → ExceptT ε (StateM σ) β) (s : σ) :
    (a >>= f) s = match a s with
      | (.ok x, s) => f x s
      | (.error e, s) => (.error e, s) := by
  show (match a s with | (r, s) => (ExceptT.bindCont f r : StateM σ _) s) = _
  rcases a s with ⟨_ | _, s⟩ <;> rfl

theorem run_get (s : σ) : (getThe σ : ExceptT ε (StateM σ) σ) s = (.ok s, s) := rfl

theorem run_liftM (a : StateM σ α) (s : σ) :
    (liftM a : ExceptT ε (StateM σ) α) s = (.ok (a s).1, (a s).2) := rfl

theorem run_adapt (f : ε → ε') (a : ExceptT ε (StateM σ) α) (s : σ) :
    a.adapt f s = ((a s).1.mapError f, (a s).2) := rfl

end TemplateCheck
