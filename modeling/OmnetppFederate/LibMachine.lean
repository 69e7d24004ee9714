import Mathlib.Data.List.Induction
import Mathlib.Data.Option.Basic

/-! Finite runs of a partial machine that an environment drives by labels. The environment picks the
label, the machine answers with the next state or refuses. A run is a list of labels; its transitions
record every state it went through, so that a statement about "every step of every run" is a statement
about the members of one list. -/

namespace OmnetppFederate.Lib

/-- A label is refused (`none`) in the states that do not enable it. -/
structure Machine (σ ℓ : Type*) where
  step : σ → ℓ → Option σ

/-- One step taken in a run. -/
structure Transition (σ ℓ : Type*) where
  before : σ
  label : ℓ
  after : σ

namespace Machine

variable {σ ℓ : Type*} (M : Machine σ ℓ)

/-- The state after all labels, if none of them is refused. -/
def run : σ → List ℓ → Option σ
  | s, [] => some s
  | s, l :: ls => (M.step s l).bind fun next => run next ls

/-- The steps taken, up to the first refused label. -/
def transitions : σ → List ℓ → List (Transition σ ℓ)
  | _, [] => []
  | s, l :: ls =>
      match M.step s l with
      | none => []
      | some next => ⟨s, l, next⟩ :: transitions next ls

@[simp] theorem run_nil (s : σ) : M.run s [] = some s := rfl

theorem run_cons (s : σ) (l : ℓ) (ls : List ℓ) :
    M.run s (l :: ls) = (M.step s l).bind fun next => M.run next ls := rfl

theorem run_singleton (s : σ) (l : ℓ) : M.run s [l] = M.step s l := by
  rw [run_cons]
  exact Option.bind_fun_some _

theorem run_append (s : σ) (ls more : List ℓ) :
    M.run s (ls ++ more) = (M.run s ls).bind fun next => M.run next more := by
  induction ls generalizing s with
  | nil => rfl
  | cons l ls ih =>
      simp only [List.cons_append, run_cons]
      cases M.step s l with
      | none => rfl
      | some next => exact ih next

variable {M}

theorem run_cons_eq_some {s s'' : σ} {l : ℓ} {ls : List ℓ} :
    M.run s (l :: ls) = some s'' ↔ ∃ s', M.step s l = some s' ∧ M.run s' ls = some s'' :=
  Option.bind_eq_some_iff

theorem run_append_eq_some {s s'' : σ} {ls more : List ℓ} :
    M.run s (ls ++ more) = some s'' ↔ ∃ s', M.run s ls = some s' ∧ M.run s' more = some s'' := by
  rw [run_append]
  exact Option.bind_eq_some_iff

theorem run_concat {s s'' : σ} {ls : List ℓ} {l : ℓ} :
    M.run s (ls ++ [l]) = some s'' ↔
      ∃ s', M.run s ls = some s' ∧ M.step s' l = some s'' := by
  rw [run_append_eq_some]
  simp only [run_singleton]

/-- Induction along a run, from its last step. -/
theorem run_induction {s : σ} {motive : List ℓ → σ → Prop} (nil : motive [] s)
    (concat : ∀ ls s' l s'', M.run s ls = some s' → motive ls s' → M.step s' l = some s'' →
      motive (ls ++ [l]) s'')
    {ls : List ℓ} {s' : σ} (hrun : M.run s ls = some s') : motive ls s' := by
  induction ls using List.reverseRecOn generalizing s' with
  | nil =>
      cases hrun
      exact nil
  | append_singleton ls l ih =>
      obtain ⟨mid, hmid, hstep⟩ := run_concat.mp hrun
      exact concat ls mid l s' hmid (ih hmid) hstep

/-- What every enabled label preserves holds at the end of every run. -/
theorem run_invariant {I : σ → Prop}
    (hstep : ∀ s l s', I s → M.step s l = some s' → I s')
    {s s' : σ} {ls : List ℓ} (hrun : M.run s ls = some s') (hI : I s) : I s' :=
  run_induction (motive := fun _ => I) hI (fun _ _ _ _ _ ih h => hstep _ _ _ ih h) hrun

/-- The same for steps whose labels are restricted. -/
theorem run_invariant_of_labels {I : σ → Prop} {allowed : ℓ → Prop}
    (hstep : ∀ s l s', allowed l → I s → M.step s l = some s' → I s')
    {s s' : σ} {ls : List ℓ} (hrun : M.run s ls = some s') (hls : ∀ l ∈ ls, allowed l)
    (hI : I s) : I s' := by
  refine run_induction (motive := fun ls s' => (∀ l ∈ ls, allowed l) → I s') (fun _ => hI)
    (fun ls _ l _ _ ih h hall => ?_) hrun hls
  exact hstep _ _ _ (hall l (by simp)) (ih fun k hk => hall k (by simp [hk])) h

theorem transitions_cons {s s' : σ} {l : ℓ} (ls : List ℓ) (hstep : M.step s l = some s') :
    M.transitions s (l :: ls) = ⟨s, l, s'⟩ :: M.transitions s' ls := by
  rw [transitions, hstep]

theorem transitions_concat {s s' s'' : σ} {ls : List ℓ} {l : ℓ} (hrun : M.run s ls = some s')
    (hstep : M.step s' l = some s'') :
    M.transitions s (ls ++ [l]) = M.transitions s ls ++ [⟨s', l, s''⟩] := by
  induction ls generalizing s with
  | nil =>
      cases hrun
      exact transitions_cons [] hstep
  | cons k ls ih =>
      obtain ⟨mid, hk, hrest⟩ := run_cons_eq_some.mp hrun
      rw [List.cons_append, transitions_cons _ hk, transitions_cons _ hk, ih hrest, List.cons_append]

/-- Every recorded step was taken after a run over a prefix of the labels. -/
theorem exists_run_of_mem_transitions {s : σ} {ls : List ℓ} {t : Transition σ ℓ}
    (ht : t ∈ M.transitions s ls) :
    ∃ pre post, ls = pre ++ t.label :: post ∧ M.run s pre = some t.before ∧
      M.step t.before t.label = some t.after := by
  induction ls generalizing s with
  | nil => simp [transitions] at ht
  | cons l ls ih =>
      rw [transitions] at ht
      cases hstep : M.step s l with
      | none => simp [hstep] at ht
      | some next =>
          simp only [hstep, List.mem_cons] at ht
          rcases ht with rfl | ht
          · exact ⟨[], ls, rfl, rfl, hstep⟩
          · obtain ⟨pre, post, rfl, hpre, hlast⟩ := ih ht
            exact ⟨l :: pre, post, rfl, run_cons_eq_some.mpr ⟨next, hstep, hpre⟩, hlast⟩

/-- A label of a run was taken in it. -/
theorem exists_step_of_mem {s s' : σ} {ls : List ℓ} {l : ℓ} (hrun : M.run s ls = some s') (hl : l ∈ ls) :
    ∃ pre before after post, M.run s pre = some before ∧ M.step before l = some after ∧
      M.run after post = some s' ∧ ls = pre ++ l :: post := by
  obtain ⟨pre, post, rfl⟩ := List.append_of_mem hl
  obtain ⟨before, hpre, hrest⟩ := run_append_eq_some.mp hrun
  obtain ⟨after, hstep, hpost⟩ := run_cons_eq_some.mp hrest
  exact ⟨pre, before, after, post, hpre, hstep, hpost, rfl⟩

theorem step_of_mem_transitions {s : σ} {ls : List ℓ} {t : Transition σ ℓ}
    (ht : t ∈ M.transitions s ls) : M.step t.before t.label = some t.after := by
  obtain ⟨_, _, _, _, h⟩ := exists_run_of_mem_transitions ht
  exact h

theorem label_mem_of_mem_transitions {s : σ} {ls : List ℓ} {t : Transition σ ℓ}
    (ht : t ∈ M.transitions s ls) : t.label ∈ ls := by
  obtain ⟨pre, post, rfl, _, _⟩ := exists_run_of_mem_transitions ht
  simp

/-- The same for runs whose steps all satisfy a condition. -/
theorem run_invariant_of_transitions {I : σ → Prop} {P : Transition σ ℓ → Prop}
    (hstep : ∀ t : Transition σ ℓ, P t → I t.before → M.step t.before t.label = some t.after → I t.after)
    {s s' : σ} {ls : List ℓ} (hrun : M.run s ls = some s') (hP : ∀ t ∈ M.transitions s ls, P t)
    (hI : I s) : I s' := by
  refine run_induction (motive := fun ls s' => (∀ t ∈ M.transitions s ls, P t) → I s') (fun _ => hI)
    (fun ls s' l s'' hrun ih hlast hall => ?_) hrun hP
  rw [transitions_concat hrun hlast] at hall
  exact hstep ⟨s', l, s''⟩ (hall _ (by simp)) (ih fun t ht => hall t (by simp [ht])) hlast

theorem transitions_subset_append {s : σ} {ls : List ℓ} (more : List ℓ) :
    M.transitions s ls ⊆ M.transitions s (ls ++ more) := by
  induction ls generalizing s with
  | nil => exact List.nil_subset _
  | cons l ls ih =>
      rw [List.cons_append, transitions, transitions]
      cases M.step s l with
      | none => exact List.nil_subset _
      | some next => exact List.cons_subset_cons _ ih

/-- And after every step of such a run. -/
theorem transitions_invariant {I : σ → Prop} {P : Transition σ ℓ → Prop}
    (hstep : ∀ t : Transition σ ℓ, P t → I t.before → M.step t.before t.label = some t.after → I t.after)
    {s : σ} {ls : List ℓ} (hP : ∀ t ∈ M.transitions s ls, P t) (hI : I s) :
    ∀ t ∈ M.transitions s ls, I t.after := by
  intro t ht
  obtain ⟨pre, post, rfl, hpre, hlast⟩ := exists_run_of_mem_transitions ht
  refine hstep t (hP t ht) (run_invariant_of_transitions hstep hpre (fun earlier hearlier => ?_) hI) hlast
  exact hP earlier (transitions_subset_append _ hearlier)

/-- Where `P` says of each step whether it keeps `I`, it says of each run whether `I` holds throughout. -/
theorem transitions_iff_reached {I : σ → Prop} {P : Transition σ ℓ → Prop} {s : σ} (hI : I s)
    (hstep : ∀ t : Transition σ ℓ, I t.before → M.step t.before t.label = some t.after → (I t.after ↔ P t))
    (ls : List ℓ) :
    (∀ t ∈ M.transitions s ls, P t) ↔
      ∀ pre reached, pre <+: ls → M.run s pre = some reached → I reached := by
  constructor
  · rintro hP pre reached ⟨more, rfl⟩ hrun
    refine run_invariant_of_transitions (P := P) (fun t ht hbefore h => ?_) hrun (fun t ht => ?_) hI
    · exact (hstep t hbefore h).mpr ht
    · exact hP t (transitions_subset_append more ht)
  · intro hreached t ht
    obtain ⟨pre, post, rfl, hpre, hlast⟩ := exists_run_of_mem_transitions ht
    have hbefore : I t.before := hreached pre _ (List.prefix_append _ _) hpre
    have hafter : I t.after :=
      hreached (pre ++ [t.label]) _ (by simp) (run_concat.mpr ⟨t.before, hpre, hlast⟩)
    exact (hstep t hbefore hlast).mp hafter

section AtEach

variable {P Q : List ℓ → ℓ → Prop}

/-- Every label stands after labels that allow it. -/
def AtEach (P : List ℓ → ℓ → Prop) (ls : List ℓ) : Prop :=
  ∀ pre l post, ls = pre ++ l :: post → P pre l

theorem AtEach.of_append {ls more : List ℓ} (h : AtEach P (ls ++ more)) : AtEach P ls := by
  rintro pre l post rfl
  exact h pre l (post ++ more) (by simp)

theorem atEach_concat {ls : List ℓ} {l : ℓ} : AtEach P (ls ++ [l]) ↔ AtEach P ls ∧ P ls l := by
  constructor
  · exact fun h => ⟨h.of_append, h ls l [] rfl⟩
  · rintro ⟨hinit, hlast⟩ pre k post heq
    rcases List.eq_nil_or_concat post with rfl | ⟨post, j, rfl⟩
    · obtain ⟨rfl, hk⟩ := List.append_inj' heq rfl
      cases hk
      exact hlast
    · rw [List.concat_eq_append, ← List.cons_append, ← List.append_assoc] at heq
      exact hinit pre k post (List.append_inj' heq rfl).1

theorem AtEach.append {ls added : List ℓ} (h : AtEach P ls)
    (hadded : ∀ pre l post, added = pre ++ l :: post → P (ls ++ pre) l) : AtEach P (ls ++ added) := by
  induction added using List.reverseRecOn with
  | nil => simpa using h
  | append_singleton added l ih =>
      rw [← List.append_assoc, atEach_concat]
      refine ⟨ih fun pre k post heq => ?_, hadded added l [] rfl⟩
      exact hadded pre k (post ++ [l]) (by rw [heq, List.append_assoc, List.cons_append])

theorem AtEach.mono {ls : List ℓ} (h : AtEach P ls) (himp : ∀ pre l, P pre l → Q pre l) : AtEach Q ls :=
  fun pre l post heq => himp pre l (h pre l post heq)

theorem atEach_iff_take {ls : List ℓ} :
    AtEach P ls ↔ ∀ i, ∀ hi : i < ls.length, P (ls.take i) (ls.get ⟨i, hi⟩) := by
  constructor
  · intro h i hi
    refine h (ls.take i) (ls.get ⟨i, hi⟩) (ls.drop (i + 1)) ?_
    rw [List.get_eq_getElem, List.getElem_cons_drop, List.take_append_drop]
  · rintro h pre l post rfl
    have hlast := h pre.length (by simp)
    rwa [List.take_left' rfl, List.get_eq_getElem, List.getElem_append_right (Nat.le_refl _), getElem_congr_idx
      (Nat.sub_self _)] at hlast

instance [∀ pre l, Decidable (P pre l)] (ls : List ℓ) : Decidable (AtEach P ls) :=
  decidable_of_iff' _ atEach_iff_take

/-- A run goes through if every label is enabled after the run so far. -/
theorem exists_run_of_atEach {s : σ} {ls : List ℓ}
    (h : AtEach (fun pre l => ∀ mid, M.run s pre = some mid → ∃ next, M.step mid l = some next) ls) :
    ∃ s', M.run s ls = some s' := by
  induction ls using List.reverseRecOn with
  | nil => exact ⟨s, rfl⟩
  | append_singleton ls l ih =>
      obtain ⟨hinit, hlast⟩ := atEach_concat.mp h
      obtain ⟨mid, hmid⟩ := ih hinit
      obtain ⟨next, hnext⟩ := hlast mid hmid
      exact ⟨next, run_concat.mpr ⟨mid, hmid, hnext⟩⟩

end AtEach

/-! ### Refinement

One machine explains another: under an invariant every concrete step is a run of the abstract machine
between the abstractions of its states, and what the concrete state has put out grows by the outputs of
the abstract labels. -/

/-- `M` refines `N` by `abs`, with the output `out` of its states explained by `view`. -/
structure Refines {τ κ ω : Type*} (M : Machine σ ℓ) (N : Machine τ κ) (I : σ → Prop) (allowed : ℓ → Prop)
    (abs : σ → τ) (out : σ → List ω) (view : κ → List ω) : Prop where
  keep : ∀ s l s', allowed l → I s → M.step s l = some s' → I s'
  explain : ∀ s l s', allowed l → I s → M.step s l = some s' →
    ∃ events, N.run (abs s) events = some (abs s') ∧ out s' = out s ++ events.flatMap view

/-- Every run of the concrete machine is a run of the abstract one with the same output. -/
theorem Refines.run {τ κ ω : Type*} {N : Machine τ κ} {I : σ → Prop} {allowed : ℓ → Prop} {abs : σ → τ}
    {out : σ → List ω} {view : κ → List ω} (h : Refines M N I allowed abs out view) {s s' : σ}
    {ls : List ℓ} (hrun : M.run s ls = some s') (hls : ∀ l ∈ ls, allowed l) (hI : I s) :
    ∃ events, N.run (abs s) events = some (abs s') ∧ out s' = out s ++ events.flatMap view := by
  refine run_induction (motive := fun ls s' => (∀ l ∈ ls, allowed l) →
    ∃ events, N.run (abs s) events = some (abs s') ∧ out s' = out s ++ events.flatMap view)
    (fun _ => ⟨[], rfl, by simp⟩) (fun ls mid l s' hmid ih hlast hall => ?_) hrun hls
  have hpre : ∀ k ∈ ls, allowed k := fun k hk => hall k (by simp [hk])
  obtain ⟨events, habs, hout⟩ := ih hpre
  have hImid := run_invariant_of_labels h.keep hmid hpre hI
  obtain ⟨more, hmore, houtMore⟩ := h.explain mid l s' (hall l (by simp)) hImid hlast
  refine ⟨events ++ more, ?_, ?_⟩
  · exact run_append_eq_some.mpr ⟨abs mid, habs, hmore⟩
  · rw [houtMore, hout, List.flatMap_append, List.append_assoc]

end Machine

section Outputs

variable {σ α β : Type*} (next : σ → α → σ) (output : σ → α → Option β)

/-- What is put out over some inputs, for each at most one output that the state before it determines. -/
def outputs : σ → List α → List β
  | _, [] => []
  | s, a :: as => (output s a).toList ++ outputs (next s a) as

theorem outputs_concat (s : σ) (as : List α) (a : α) :
    outputs next output s (as ++ [a]) = outputs next output s as ++ (output (as.foldl next s) a).toList := by
  induction as generalizing s with
  | nil => exact List.append_nil _
  | cons first as ih => rw [List.cons_append, outputs, ih, outputs, List.foldl_cons, List.append_assoc]

/-- Inputs that neither change the state nor put anything out can be left out. -/
theorem outputs_filter {p : α → Bool} (s : σ) {as : List α}
    (hidle : ∀ a ∈ as, p a = false → ∀ s, next s a = s ∧ output s a = none) :
    outputs next output s (as.filter p) = outputs next output s as := by
  induction as generalizing s with
  | nil => rfl
  | cons a as ih =>
      obtain ⟨hfirst, hrest⟩ := List.forall_mem_cons.mp hidle
      cases hp : p a with
      | true => rw [List.filter_cons_of_pos hp, outputs, outputs, ih _ hrest]
      | false =>
          obtain ⟨hnext, hnone⟩ := hfirst hp s
          rw [List.filter_cons_of_neg (by simp [hp]), ih _ hrest, outputs, hnext, hnone]
          rfl

theorem outputs_map {γ : Type*} (f : γ → α) (s : σ) (items : List γ) :
    outputs next output s (items.map f) = outputs (fun s c => next s (f c)) (fun s c => output s (f c)) s items := by
  induction items generalizing s with
  | nil => rfl
  | cons c items ih => rw [List.map_cons, outputs, outputs, ih]

/-- Outputs that carry something over from their inputs carry it over in order. -/
theorem outputs_sublist {γ : Type*} {f : α → γ} {g : β → γ} (h : ∀ s a b, output s a = some b → g b = f a) (s : σ)
    (as : List α) : ((outputs next output s as).map g).Sublist (as.map f) := by
  induction as generalizing s with
  | nil => exact .slnil
  | cons a as ih =>
      rw [outputs, List.map_append, List.map_cons]
      cases hb : output s a with
      | none => exact (ih _).cons _
      | some b =>
          rw [Option.toList_some, List.map_singleton, h s a b hb]
          exact (ih _).cons_cons _

end Outputs

end OmnetppFederate.Lib
