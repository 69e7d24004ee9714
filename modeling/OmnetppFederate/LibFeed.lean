import OmnetppFederate.LibFraming
import OmnetppFederate.LibMachine

/-! A machine that is fed from a stream. Its own labels stand between reads, and a read decodes as many bytes as it
needs, whatever its variables held before. If the reader takes exactly the bytes of each message, the machine does
on the bytes what it does on the messages, however the reads are interleaved with its own labels. -/

namespace OmnetppFederate.Lib

open Machine

variable {σ ℓ κ ρ ι μ : Type*}

/-- A label of the machine's own, or a read with what the reader's variables hold. -/
inductive FeedLabel (κ ρ : Type*) where
  | own (label : κ)
  | read (memory : ρ)

def FeedLabel.memory : FeedLabel κ ρ → Option ρ
  | own _ => none
  | read memory => some memory

def FeedLabel.label : FeedLabel κ ρ → Option κ
  | own label => some label
  | read _ => none

/-- What the variables hold at each read. -/
def memories (labels : List (FeedLabel κ ρ)) : List ρ := labels.filterMap FeedLabel.memory

@[simp] theorem memories_own (label : κ) (labels : List (FeedLabel κ ρ)) :
    memories (.own label :: labels) = memories labels := List.filterMap_cons_none rfl

@[simp] theorem memories_read (memory : ρ) (labels : List (FeedLabel κ ρ)) :
    memories (.read memory :: labels) = memory :: memories labels := List.filterMap_cons_some rfl

/-- The machine under its own labels, and under what is read off the stream. -/
def Machine.fed (M : Machine σ ℓ) (own : κ → ℓ) (receive : ι → ℓ) (read : ρ → Reader ι) :
    Machine (σ × List UInt8) (FeedLabel κ ρ) where
  step := fun (s, stream) label =>
    match label with
    | .own label => (M.step s (own label)).map fun s => (s, stream)
    | .read memory =>
        let (input, stream) := read memory stream
        (M.step s (receive input)).map fun s => (s, stream)

/-- The labels with what is read at them: each read takes the next message. -/
def fedLabels (own : κ → ℓ) (receive : ι → ℓ) (decode : ρ → μ → ι) : List (FeedLabel κ ρ) → List μ → List ℓ
  | [], _ => []
  | .own label :: labels, messages => own label :: fedLabels own receive decode labels messages
  | .read _ :: _, [] => []
  | .read memory :: labels, message :: messages =>
      receive (decode memory message) :: fedLabels own receive decode labels messages

section Fed

variable {M : Machine σ ℓ} {own : κ → ℓ} {receive : ι → ℓ} {read : ρ → Reader ι} {decode : ρ → μ → ι}
  {bytes : μ → List UInt8}

theorem fed_step_read (hreads : ∀ memory message, Reads (read memory) (bytes message) (decode memory message))
    (s : σ) (memory : ρ) (message : μ) (rest : List UInt8) :
    (M.fed own receive read).step (s, bytes message ++ rest) (.read memory) =
      (M.step s (receive (decode memory message))).map fun s => (s, rest) := by
  simp only [Machine.fed, hreads memory message rest]

/-- A run over the bytes of enough messages is the run over the messages, and leaves the bytes of the others. -/
theorem run_fed (hreads : ∀ memory message, Reads (read memory) (bytes message) (decode memory message))
    (further : List UInt8) (s : σ) (labels : List (FeedLabel κ ρ)) (messages : List μ)
    (henough : (memories labels).length ≤ messages.length) :
    (M.fed own receive read).run (s, messages.flatMap bytes ++ further) labels =
      (M.run s (fedLabels own receive decode labels messages)).map fun s =>
        (s, (messages.drop (memories labels).length).flatMap bytes ++ further) := by
  induction labels generalizing s messages with
  | nil => rfl
  | cons label labels ih =>
      cases label with
      | own label =>
          rw [memories_own] at henough
          have hstep : (M.fed own receive read).step (s, messages.flatMap bytes ++ further) (.own label) =
              (M.step s (own label)).map fun s => (s, messages.flatMap bytes ++ further) := rfl
          rw [run_cons, hstep, fedLabels, run_cons, memories_own]
          cases M.step s (own label) with
          | none => rfl
          | some next => exact ih next messages henough
      | read memory =>
          rw [memories_read, List.length_cons] at henough
          obtain ⟨message, messages, rfl⟩ := List.exists_cons_of_ne_nil
            (List.ne_nil_of_length_pos (Nat.lt_of_lt_of_le (Nat.succ_pos _) henough))
          rw [List.flatMap_cons, List.append_assoc, run_cons, fed_step_read hreads, fedLabels, run_cons,
            memories_read, List.length_cons, List.drop_succ_cons]
          cases M.step s (receive (decode memory message)) with
          | none => rfl
          | some next => exact ih next messages (Nat.le_of_succ_le_succ henough)

end Fed

section Variables

variable {M : Machine σ ℓ} {own : κ → ℓ} {receive : ι → ℓ} {decode : ρ → μ → ι}

/-- Labels that differ in what the variables hold decode the messages to labels that are alike. -/
theorem forall₂_fedLabels {L : ℓ → ℓ → Prop} (hown : ∀ label, L (own label) (own label))
    {messages : List μ} (hdecode : ∀ message ∈ messages, ∀ memory memory',
      L (receive (decode memory message)) (receive (decode memory' message)))
    {labels labels' : List (FeedLabel κ ρ)}
    (hsame : labels.map FeedLabel.label = labels'.map FeedLabel.label) :
    List.Forall₂ L (fedLabels own receive decode labels messages)
      (fedLabels own receive decode labels' messages) := by
  induction labels generalizing labels' messages with
  | nil =>
      rw [List.map_eq_nil_iff.mp hsame.symm]
      exact .nil
  | cons first labels ih =>
      obtain ⟨first', labels', rfl, hfirst, hrest⟩ := List.map_eq_cons_iff.mp hsame.symm
      cases first with
      | own label =>
          cases first' with
          | own label' =>
              cases hfirst
              exact .cons (hown label) (ih hdecode hrest.symm)
          | read => cases hfirst
      | read memory =>
          cases first' with
          | own => cases hfirst
          | read memory' =>
              cases messages with
              | nil => exact .nil
              | cons message messages =>
                  refine .cons (hdecode message List.mem_cons_self memory memory')
                    (ih (fun later hlater => ?_) hrest.symm)
                  exact hdecode later (List.mem_cons_of_mem _ hlater)

theorem length_memories (labels : List (FeedLabel κ ρ)) :
    (memories labels).length = (labels.map FeedLabel.label).countP Option.isNone := by
  induction labels with
  | nil => rfl
  | cons first labels ih =>
      cases first with
      | own label => rw [memories_own, ih, List.map_cons, List.countP_cons_of_neg (by simp [FeedLabel.label])]
      | read memory => rw [memories_read, List.length_cons, ih, List.map_cons, List.countP_cons_of_pos rfl]

/-- A simulation step by step is one run by run. -/
theorem exists_run_of_forall₂ {R : σ → σ → Prop} {L : ℓ → ℓ → Prop}
    (hstep : ∀ s t label label' s', R s t → L label label' → M.step s label = some s' →
      ∃ t', M.step t label' = some t' ∧ R s' t')
    {labels labels' : List ℓ} (hlabels : List.Forall₂ L labels labels') {s t s' : σ} (h : R s t)
    (hrun : M.run s labels = some s') : ∃ t', M.run t labels' = some t' ∧ R s' t' := by
  induction hlabels generalizing s t with
  | nil =>
      cases hrun
      exact ⟨t, rfl, h⟩
  | cons hlabel _ ih =>
      obtain ⟨mid, hmid, hrest⟩ := run_cons_eq_some.mp hrun
      obtain ⟨mid', hmid', hmidR⟩ := hstep _ _ _ _ _ h hlabel hmid
      obtain ⟨t', ht', hR⟩ := ih hmidR hrest
      exact ⟨t', run_cons_eq_some.mpr ⟨mid', hmid', ht'⟩, hR⟩

end Variables

end OmnetppFederate.Lib
