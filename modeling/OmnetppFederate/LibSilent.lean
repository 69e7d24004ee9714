import OmnetppFederate.LibMachine

/-! Machines with a silent label, for what they do by themselves between the actions of the environment. The
visible labels of a run are the environment's. A simulation answers each step by a run with the same visible
labels; if silent steps come first, the visible labels determine the run. -/

namespace OmnetppFederate.Lib.Machine

section Visible

variable {ℓ : Type*} [DecidableEq ℓ] {silent : ℓ}

def visible (silent : ℓ) (labels : List ℓ) : List ℓ := labels.filter (· ≠ silent)

theorem visible_append (labels more : List ℓ) :
    visible silent (labels ++ more) = visible silent labels ++ visible silent more := List.filter_append ..

theorem visible_replicate (n : Nat) : visible silent (List.replicate n silent) = [] := by simp [visible]

theorem visible_cons_silent (labels : List ℓ) : visible silent (silent :: labels) = visible silent labels := by
  simp [visible]

theorem visible_cons_of_ne {l : ℓ} (hne : l ≠ silent) (labels : List ℓ) :
    visible silent (l :: labels) = l :: visible silent labels := by simp [visible, hne]

theorem eq_replicate_of_visible_eq_nil {labels : List ℓ} (h : visible silent labels = []) :
    labels = List.replicate labels.length silent := by
  refine List.eq_replicate_of_mem fun l hl => ?_
  simpa using List.filter_eq_nil_iff.mp h l hl

end Visible

section SilentFirst

variable {σ ℓ : Type*} {M : Machine σ ℓ} {silent : ℓ}

/-- While the silent label is enabled, no other one is. -/
def SilentFirst (M : Machine σ ℓ) (silent : ℓ) : Prop :=
  ∀ s t u l, M.step s silent = some t → M.step s l = some u → l = silent

theorem eq_of_stuck {s t : σ} {n : Nat} (hstuck : M.step s silent = none)
    (hrun : M.run s (List.replicate n silent) = some t) : t = s := by
  cases n with
  | zero =>
      cases hrun
      rfl
  | succ n =>
      rw [List.replicate_succ, run_cons, hstuck] at hrun
      cases hrun

variable [DecidableEq ℓ]

/-- Runs with the same visible labels differ in silent steps at the end. -/
theorem SilentFirst.run_determined (h : SilentFirst M silent) {s v v' : σ} {labels labels' : List ℓ}
    (hrun : M.run s labels = some v) (hrun' : M.run s labels' = some v')
    (hlabels : visible silent labels = visible silent labels') :
    ∃ n, M.run v (List.replicate n silent) = some v' ∨ M.run v' (List.replicate n silent) = some v := by
  induction labels generalizing s labels' with
  | nil =>
      cases hrun
      rw [eq_replicate_of_visible_eq_nil hlabels.symm] at hrun'
      exact ⟨_, .inl hrun'⟩
  | cons l labels ih =>
      cases labels' with
      | nil =>
          cases hrun'
          rw [eq_replicate_of_visible_eq_nil hlabels] at hrun
          exact ⟨_, .inr hrun⟩
      | cons l' labels' =>
          obtain ⟨t, hstep, hrest⟩ := run_cons_eq_some.mp hrun
          obtain ⟨t', hstep', hrest'⟩ := run_cons_eq_some.mp hrun'
          have hsame : l = l' ∧ visible silent labels = visible silent labels' := by
            by_cases hsilent : l = silent
            · subst hsilent
              obtain rfl := h s t t' l' hstep hstep'
              rw [visible_cons_silent, visible_cons_silent] at hlabels
              exact ⟨rfl, hlabels⟩
            · have hsilent' : l' ≠ silent := by
                rintro rfl
                exact hsilent (h s t' t l hstep' hstep)
              rw [visible_cons_of_ne hsilent, visible_cons_of_ne hsilent'] at hlabels
              exact List.cons.inj hlabels
          obtain ⟨rfl, hothers⟩ := hsame
          obtain rfl := Option.some.inj (hstep.symm.trans hstep')
          exact ih hrest hrest' hothers

/-- Where no silent step is left to take, there is no difference. -/
theorem SilentFirst.eq_of_run (h : SilentFirst M silent) {s v v' : σ} {labels labels' : List ℓ}
    (hrun : M.run s labels = some v) (hrun' : M.run s labels' = some v')
    (hlabels : visible silent labels = visible silent labels') (hstuck : M.step v silent = none)
    (hstuck' : M.step v' silent = none) : v = v' := by
  obtain ⟨n, hmore | hmore⟩ := h.run_determined hrun hrun' hlabels
  · exact (eq_of_stuck hstuck hmore).symm
  · exact eq_of_stuck hstuck' hmore

end SilentFirst

/-! ### Simulations -/

section Simulates

variable {σ τ ℓ κ : Type*} [DecidableEq ℓ] [DecidableEq κ] {M : Machine σ ℓ} {N : Machine τ κ} {silent : ℓ}
  {silent' : κ} {translate : ℓ → κ} {R : σ → τ → Prop}

/-- From the state `t`, `N` does what `labels` do in `M` on the way to `s'`, with any number of silent steps. -/
def Follows (N : Machine τ κ) (silent : ℓ) (silent' : κ) (translate : ℓ → κ) (R : σ → τ → Prop)
    (labels : List ℓ) (t : τ) (s' : σ) : Prop :=
  ∃ labels' t', N.run t labels' = some t' ∧
    visible silent' labels' = (visible silent labels).map translate ∧ R s' t'

/-- `N` follows each step of `M` between related states. -/
def Simulates (M : Machine σ ℓ) (N : Machine τ κ) (silent : ℓ) (silent' : κ) (translate : ℓ → κ)
    (R : σ → τ → Prop) : Prop :=
  ∀ s t l s', R s t → M.step s l = some s' → Follows N silent silent' translate R [l] t s'

theorem Simulates.run (h : Simulates M N silent silent' translate R) {s s' : σ} {t : τ} {labels : List ℓ}
    (hR : R s t) (hrun : M.run s labels = some s') : Follows N silent silent' translate R labels t s' := by
  refine run_induction (motive := fun labels s' => Follows N silent silent' translate R labels t s')
    ⟨[], t, rfl, rfl, hR⟩ (fun labels mid l s' _ ih hstep => ?_) hrun
  obtain ⟨labels', u, hrun', hlabels, hmid⟩ := ih
  obtain ⟨more, t', hmore, hlast, hR'⟩ := h mid u l s' hmid hstep
  refine ⟨labels' ++ more, t', ?_, ?_, hR'⟩
  · exact run_append_eq_some.mpr ⟨u, hrun', hmore⟩
  · rw [visible_append, visible_append, List.map_append, hlabels, hlast]

end Simulates

end OmnetppFederate.Lib.Machine
