import OmnetppFederate.LibMachine

/-! Potentials. A machine that pays for what it does by itself out of a potential, which only the labels of the
environment refill, does no more by itself than it was given for. Where it can go on by itself until it is
quiet, it becomes quiet within the potential. -/

namespace OmnetppFederate.Lib.Machine

variable {σ ℓ : Type*} {M : Machine σ ℓ} {potential : σ → Nat}

section Pays

variable {own fed : ℓ → Bool} {credit : Nat}

/-- A step of the machine's own takes potential, and only the labels that feed it give some back. -/
def Pays (M : Machine σ ℓ) (potential : σ → Nat) (own fed : ℓ → Bool) (credit : Nat) : Prop :=
  ∀ s l s', M.step s l = some s' → (own l).toNat + potential s' ≤ potential s + credit * (fed l).toNat

theorem countP_cons_toNat (f : ℓ → Bool) (l : ℓ) (ls : List ℓ) :
    (l :: ls).countP f = (f l).toNat + ls.countP f := by
  rw [List.countP_cons, Nat.add_comm]
  cases f l <;> rfl

theorem Pays.run (h : Pays M potential own fed credit) {s s' : σ} {ls : List ℓ}
    (hrun : M.run s ls = some s') :
    ls.countP own + potential s' ≤ potential s + credit * ls.countP fed := by
  induction ls generalizing s with
  | nil =>
      cases hrun
      simp
  | cons l ls ih =>
      obtain ⟨mid, hstep, hrest⟩ := run_cons_eq_some.mp hrun
      have hfirst := h s l mid hstep
      have hothers := ih hrest
      rw [countP_cons_toNat, countP_cons_toNat, Nat.mul_add]
      omega

end Pays

/-- Each state that keeps `I` and is not quiet has a step of the machine's own, which takes potential. -/
theorem exists_quiet {I quiet : σ → Prop} {own : ℓ → Prop}
    (hstep : ∀ s, I s → quiet s ∨ ∃ l s', own l ∧ M.step s l = some s' ∧ I s' ∧ potential s' < potential s)
    {s : σ} (hI : I s) :
    ∃ ls t, (∀ l ∈ ls, own l) ∧ ls.length ≤ potential s ∧ M.run s ls = some t ∧ quiet t := by
  generalize hbound : potential s = bound
  induction bound using Nat.strongRecOn generalizing s with
  | ind bound ih =>
      rcases hstep s hI with hquiet | ⟨l, mid, hown, hmid, hImid, hlt⟩
      · exact ⟨[], s, by simp, Nat.zero_le _, rfl, hquiet⟩
      · rw [hbound] at hlt
        obtain ⟨ls, t, hls, hlength, hrun, hquiet⟩ := ih (potential mid) hlt hImid rfl
        refine ⟨l :: ls, t, ?_, ?_, run_cons_eq_some.mpr ⟨mid, hmid, hrun⟩, hquiet⟩
        · intro k hk
          rcases List.mem_cons.mp hk with rfl | hk
          · exact hown
          · exact hls k hk
        · rw [List.length_cons]
          omega

end OmnetppFederate.Lib.Machine
