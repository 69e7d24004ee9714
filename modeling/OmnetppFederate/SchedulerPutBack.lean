import OmnetppFederate.SchedulerAlike

/-! `putBackEvent` as the kernel uses it: an event that has been taken but not executed is given back. It is
inserted like a new event, behind all others of its time and priority, so what follows depends on whether one
of them is alive. -/

namespace OmnetppFederate

open Lib Machine Federate

variable {res : Resolution}

/-- The kernel gives back an event that it has not executed, and is where it was before the call. -/
def giveBack (s taken : Federate) (event : Event) : Federate :=
  { taken.putBackEvent event with control := s.control, simTime := s.simTime }

/-- The event is taken and given back any number of times, each time under a new insertion number. -/
inductive TakenAndPutBack (res : Resolution) (s : Federate) (event : Stamped Event) :
    Federate → Stamped Event → Prop where
  | start : TakenAndPutBack res s event s event
  | again {u taken : Federate} {current : Stamped Event} (h : TakenAndPutBack res s event u current)
      (htakes : Takes res u current taken) :
      TakenAndPutBack res s event (giveBack u taken current.val) (taken.fes.stampNext current.val)

/-- The numbers under which an event and all later insertions go in another state. -/
def renumber (s s' : Federate) (event event' : Stamped Event) (stamp : Nat) : Nat :=
  if stamp = event.stamp then event'.stamp
  else if stamp < s.fes.nextStamp then stamp
  else stamp - s.fes.nextStamp + s'.fes.nextStamp

section GiveBack

variable {s taken : Federate} {event : Stamped Event} {skipped rest : List (Stamped Event)}

/-- But for the FES and the log, taking an event and giving it back leaves everything as it was. -/
theorem HandedTo.giveBack_eq (h : HandedTo s event rest taken) (back : Event) :
    giveBack s taken back =
      { s with fes := (giveBack s taken back).fes, log := (giveBack s taken back).log } := by
  obtain ⟨fes, log, ht⟩ : ∃ fes log, taken = { s with
      fes := fes, log := log, control := .kernel (some event.val), simTime := event.val.arrivalTime } :=
    ⟨_, _, h.same⟩
  subst ht
  rfl

theorem HandedTo.isStale_giveBack (h : HandedTo s event rest taken) (back other : Event) :
    (giveBack s taken back).isStale other = s.isStale other := by
  rw [h.giveBack_eq]
  rfl

theorem HandedTo.items_giveBack (h : HandedTo s event rest taken) (back : Event) :
    (giveBack s taken back).fes.items =
      rest.filter (fun x => x.val.key ≤ back.key) ++ taken.fes.stampNext back ::
        rest.filter (fun x => ¬ x.val.key ≤ back.key) := by
  rw [← h.items]
  exact StableQueue.items_insert taken.fes back

/-- If the events of its time and priority are stale, the event is the first one alive again. -/
theorem FirstLive.again (h : FirstLive res s event skipped rest) (hhanded : HandedTo s event rest taken)
    (hties : ∀ x ∈ rest, x.val.key ≤ event.val.key → s.isStale x.val = true) :
    FirstLive res (giveBack s taken event.val) (taken.fes.stampNext event.val)
      (rest.filter fun x => x.val.key ≤ event.val.key) (rest.filter fun x => ¬ x.val.key ≤ event.val.key) where
  items := hhanded.items_giveBack event.val
  stale := by
    intro x hx
    obtain ⟨hmem, hkey⟩ := List.mem_filter.mp hx
    rw [hhanded.isStale_giveBack]
    exact hties x hmem (of_decide_eq_true hkey)
  live := by
    rw [StableQueue.val_stampNext, hhanded.isStale_giveBack]
    exact h.live
  due := by
    rw [hhanded.giveBack_eq]
    exact h.due
  advancing := by
    rw [hhanded.giveBack_eq]
    exact h.advancing

end GiveBack

/-! ### Any number of rounds -/

/-- The state after some rounds. What is ignored in comparing it with the state at the start is stale and not
behind the event. -/
structure RoundState (res : Resolution) (s : Federate) (event : Stamped Event) (ignored : List Nat)
    (later : List (Stamped Event)) (u : Federate) (current : Stamped Event)
    (skipped rest : List (Stamped Event)) : Prop where
  same : u = { s with fes := u.fes, log := u.log }
  firstLive : FirstLive res u current skipped rest
  val : current.val = event.val
  stamp : current.stamp = event.stamp ∨ s.fes.nextStamp ≤ current.stamp
  nextStamp : s.fes.nextStamp ≤ u.fes.nextStamp
  kept : current.stamp ∉ ignored
  skippedIgnored : ∀ x ∈ skipped, x.stamp ∈ ignored
  tiesIgnored : ∀ x ∈ rest, x.val.key ≤ event.val.key → x.stamp ∈ ignored
  ignoredTies : ∀ x ∈ rest, x.stamp ∈ ignored → x.val.key ≤ event.val.key ∧ s.isStale x.val = true
  later : rest.filter (·.stamp ∉ ignored) = later

section RoundState

variable {s u : Federate} {event current : Stamped Event} {ignored : List Nat}
  {later skipped rest : List (Stamped Event)}

theorem RoundState.filter (h : RoundState res s event ignored later u current skipped rest) :
    u.fes.items.filter (·.stamp ∉ ignored) = current :: later := by
  have hskipped : skipped.filter (·.stamp ∉ ignored) = [] :=
    List.filter_eq_nil_iff.mpr (by simpa using h.skippedIgnored)
  rw [h.firstLive.items, List.filter_append, hskipped, List.nil_append,
    List.filter_cons_of_pos (by simpa using h.kept), h.later]

theorem RoundState.isStale_eq (h : RoundState res s event ignored later u current skipped rest) (other : Event) :
    u.isStale other = s.isStale other := by
  rw [h.same]
  rfl

theorem RoundState.skippable (h : RoundState res s event ignored later u current skipped rest)
    {control : Option Event} (hcontrol : s.control = .kernel control) {x : Stamped Event} (hx : x ∈ u.fes.items)
    (hignored : x.stamp ∈ ignored) : Skippable res s x.val := by
  have hgrant : u.currentMaxSimTime = s.currentMaxSimTime := by rw [h.same]
  have hadvancing : s.isTimeAdvancing = true := by rw [← h.firstLive.advancing, h.same]
  have hentered : ∀ nextTime curTime, s.control = .taking nextTime curTime →
      nextTime = 0 ∧ curTime = SimTime.truncNs res s.simTime := by
    intro _ _ htaking
    rw [hcontrol] at htaking
    cases htaking
  rw [h.firstLive.items] at hx
  rcases List.mem_append.mp hx with hx | hx
  · have hdue := h.firstLive.due_of_skipped hx
    have hstale := h.firstLive.stale x hx
    rw [h.isStale_eq] at hstale
    exact ⟨hadvancing, hstale, hgrant ▸ hdue, hentered⟩
  · rcases List.mem_cons.mp hx with rfl | hx
    · exact absurd hignored h.kept
    · obtain ⟨hkey, hstale⟩ := h.ignoredTies x hx hignored
      have htime := Event.arrivalTime_le_of_key_le hkey
      have hdue := h.firstLive.due
      rw [h.val, hgrant] at hdue
      exact ⟨hadvancing, hstale, (SimTime.truncNs_mono res htime).trans hdue, hentered⟩

theorem RoundState.same_of_same (h : RoundState res s event ignored later u current skipped rest) {v : Federate}
    (hsame : v = { u with fes := v.fes, log := v.log }) : v = { s with fes := v.fes, log := v.log } := by
  obtain ⟨fes, log, hu⟩ : ∃ fes log, u = { s with fes := fes, log := log } := ⟨_, _, h.same⟩
  rw [hu] at hsame
  exact hsame

/-- One more round: the stale events of the same time and priority are before the event now. -/
theorem RoundState.again (h : RoundState res s event ignored later u current skipped rest)
    (hold : ∀ stamp ∈ ignored, stamp < s.fes.nextStamp) {taken : Federate}
    (htakes : Takes res u current taken) :
    ∃ skipped' rest', RoundState res s event ignored later (giveBack u taken current.val)
      (taken.fes.stampNext current.val) skipped' rest' := by
  obtain ⟨skipped', rest', hlive, hhanded⟩ := htakes.firstLive
  obtain ⟨-, rfl⟩ := List.cons.inj (h.firstLive.dropWhile.symm.trans hlive.dropWhile)
  have hnext : taken.fes.nextStamp = u.fes.nextStamp := hhanded.nextStamp
  have hties : ∀ x ∈ rest, x.val.key ≤ current.val.key → x.stamp ∈ ignored := by
    rw [h.val]
    exact h.tiesIgnored
  have hstale : ∀ x ∈ rest, x.val.key ≤ current.val.key → u.isStale x.val = true := by
    intro x hx hkey
    rw [h.isStale_eq]
    exact (h.ignoredTies x hx (hties x hx hkey)).2
  refine ⟨_, _, h.same_of_same (hhanded.giveBack_eq current.val), h.firstLive.again hhanded hstale, h.val,
    .inr ?_, ?_, ?_, ?_, ?_, ?_, ?_⟩
  · exact h.nextStamp.trans hnext.ge
  · have hinserted : (giveBack u taken current.val).fes.nextStamp = taken.fes.nextStamp + 1 := rfl
    have hle := h.nextStamp
    omega
  · intro hignored
    have hlt := hold _ hignored
    have hstamp : (taken.fes.stampNext current.val).stamp = taken.fes.nextStamp := rfl
    have hle := h.nextStamp
    omega
  · intro x hx
    obtain ⟨hmem, hkey⟩ := List.mem_filter.mp hx
    exact hties x hmem (of_decide_eq_true hkey)
  · intro x hx hkey
    obtain ⟨-, hlater⟩ := List.mem_filter.mp hx
    rw [h.val] at hlater
    exact absurd hkey (of_decide_eq_true hlater)
  · intro x hx hignored
    exact h.ignoredTies x (List.mem_filter.mp hx).1 hignored
  · rw [← h.later, List.filter_filter]
    refine List.filter_congr fun x hx => ?_
    by_cases hignored : x.stamp ∈ ignored
    · simp [hignored]
    · have hkey : ¬ x.val.key ≤ current.val.key := fun hle => hignored (hties x hx hle)
      simp [hignored, hkey]

/-- The start, if all other events of the same time and priority are stale. -/
theorem roundState_start (hlive : FirstLive res s event skipped rest)
    (hstamps : (s.fes.items.map Stamped.stamp).Nodup)
    (hties : ∀ other ∈ s.fes.items, other ≠ event → other.val.key = event.val.key →
      s.isStale other.val = true) :
    ∃ ignored later, (∀ stamp ∈ ignored, stamp < s.fes.nextStamp) ∧
      RoundState res s event ignored later s event skipped rest := by
  have hitems := hlive.items
  have hordered := s.fes.ordered
  rw [hitems] at hordered
  obtain ⟨-, hbehind, hbefore⟩ := List.pairwise_append.mp hordered
  have hrest := (List.pairwise_cons.mp hbehind).1
  have hevent : event ∈ s.fes.items := by simp [hitems]
  have hskipped : ∀ x ∈ skipped, x ∈ s.fes.items := fun x hx => by simp [hitems, hx]
  have hbehindMem : ∀ x ∈ rest, x ∈ s.fes.items := fun x hx => by simp [hitems, hx]
  have hinj : ∀ x ∈ s.fes.items, ∀ y ∈ s.fes.items, x.stamp = y.stamp → x = y :=
    fun x hx y hy => List.inj_on_of_nodup_map hstamps hx hy
  -- what is skipped, and what is behind the event with the same time and priority
  let gone := skipped ++ rest.filter fun x => x.val.key ≤ event.val.key
  have hgone : ∀ x ∈ gone,
      x ∈ s.fes.items ∧ x ≠ event ∧ x.val.key ≤ event.val.key ∧ s.isStale x.val = true := by
    intro x hx
    rcases List.mem_append.mp hx with hx | hx
    · have hrank := hbefore x hx event List.mem_cons_self
      refine ⟨hskipped x hx, ?_, Stamped.key_le_of_rank_le hrank.le, hlive.stale x hx⟩
      rintro rfl
      exact lt_irrefl _ hrank
    · obtain ⟨hmem, hkey⟩ := List.mem_filter.mp hx
      have hrank := hrest x hmem
      have hne : x ≠ event := by
        rintro rfl
        exact lt_irrefl _ hrank
      have hle : x.val.key ≤ event.val.key := of_decide_eq_true hkey
      have hsame := le_antisymm hle (Stamped.key_le_of_rank_le hrank.le)
      exact ⟨hbehindMem x hmem, hne, hle, hties x (hbehindMem x hmem) hne hsame⟩
  have hignored : ∀ x ∈ s.fes.items, x.stamp ∈ gone.map Stamped.stamp → x ∈ gone := by
    intro x hx hstamp
    obtain ⟨y, hy, hsame⟩ := List.mem_map.mp hstamp
    rwa [hinj x hx y (hgone y hy).1 hsame.symm]
  refine ⟨gone.map Stamped.stamp, _, ?_, rfl, hlive, rfl, .inl rfl, le_rfl, ?_, ?_, ?_, ?_, rfl⟩
  · intro stamp hstamp
    obtain ⟨y, hy, rfl⟩ := List.mem_map.mp hstamp
    exact s.fes.stamped y (hgone y hy).1
  · exact fun hmem => (hgone event (hignored event hevent hmem)).2.1 rfl
  · exact fun x hx => List.mem_map.mpr ⟨x, List.mem_append_left _ hx, rfl⟩
  · intro x hx hkey
    exact List.mem_map.mpr
      ⟨x, List.mem_append_right _ (List.mem_filter.mpr ⟨hx, decide_eq_true hkey⟩), rfl⟩
  · intro x hx hmem
    exact (hgone x (hignored x (hbehindMem x hx) hmem)).2.2

theorem TakenAndPutBack.roundState (h : TakenAndPutBack res s event u current)
    (hold : ∀ stamp ∈ ignored, stamp < s.fes.nextStamp)
    (hstart : RoundState res s event ignored later s event skipped rest) :
    ∃ skipped' rest', RoundState res s event ignored later u current skipped' rest' := by
  induction h with
  | start => exact ⟨_, _, hstart⟩
  | again _ htakes ih =>
      obtain ⟨_, _, hround⟩ := ih
      exact hround.again hold htakes

theorem renumber_of_old {stamp : Nat} (hne : stamp ≠ event.stamp) (hold : stamp < s.fes.nextStamp) :
    renumber s u event current stamp = stamp := by
  rw [renumber, if_neg hne, if_pos hold]

theorem RoundState.renumber_injective (h : RoundState res s event ignored later u current skipped rest) :
    Function.Injective (renumber s u event current) := by
  have hcurrent : current.stamp < u.fes.nextStamp := u.fes.stamped current (by simp [h.firstLive.items])
  have hnext := h.nextStamp
  intro m n hsame
  unfold renumber at hsame
  rcases h.stamp with hstamp | hstamp
  · split_ifs at hsame <;> omega
  · split_ifs at hsame <;> omega

theorem RoundState.renumber_next (h : RoundState res s event ignored later u current skipped rest)
    (hevent : event.stamp < s.fes.nextStamp) (n : Nat) :
    renumber s u event current (s.fes.nextStamp + n) = u.fes.nextStamp + n := by
  have hnext := h.nextStamp
  have hne : s.fes.nextStamp + n ≠ event.stamp := (hevent.trans_le (Nat.le_add_right _ n)).ne'
  rw [renumber, if_neg hne, if_neg (Nat.not_lt.mpr (Nat.le_add_right _ n))]
  omega

/-- Behind the event, the same events follow under their old insertion numbers. -/
theorem RoundState.later_restamp (hstart : RoundState res s event ignored later s event skipped rest)
    (hstamps : (s.fes.items.map Stamped.stamp).Nodup) :
    later.map (Stamped.restamp (renumber s u event current)) = later := by
  have hitems := hstart.firstLive.items
  have hafter : ∀ x ∈ later, x ∈ rest := by
    intro x hx
    rw [← hstart.later] at hx
    exact (List.mem_filter.mp hx).1
  rw [hitems, List.map_append, List.map_cons] at hstamps
  have hnotBehind := (List.nodup_cons.mp (List.nodup_append.mp hstamps).2.1).1
  have hsame : ∀ x ∈ later, x.restamp (renumber s u event current) = x := by
    intro x hx
    have hne : x.stamp ≠ event.stamp := by
      intro heq
      exact hnotBehind (heq ▸ List.mem_map_of_mem (hafter x hx))
    have hold := s.fes.stamped x (by simp [hitems, hafter x hx])
    rw [Stamped.restamp, renumber_of_old hne hold]
  calc later.map (Stamped.restamp (renumber s u event current))
      = later.map id := List.map_congr_left hsame
    _ = later := List.map_id _

theorem RoundState.sameBut (h : RoundState res s event ignored later u current skipped rest)
    {skipped₀ rest₀ : List (Stamped Event)}
    (hstart : RoundState res s event ignored later s event skipped₀ rest₀)
    (hold : ∀ stamp ∈ ignored, stamp < s.fes.nextStamp) (hstamps : (s.fes.items.map Stamped.stamp).Nodup)
    {control : Option Event} (hcontrol : s.control = .kernel control) :
    SameBut res (renumber s u event current) ignored (handedOut s.log) (handedOut u.log) s u where
  same := h.same
  queue :=
    { items := by
        have hrestamp : event.restamp (renumber s u event current) = current := by
          rw [Stamped.restamp, renumber, if_pos rfl, ← h.val]
        rw [h.filter, hstart.filter, List.map_cons, hrestamp, hstart.later_restamp hstamps]
      injective := h.renumber_injective
      next := h.renumber_next (s.fes.stamped event (by simp [hstart.firstLive.items]))
      old := fun stamp hstamp => ⟨hold stamp hstamp, (hold stamp hstamp).trans_le h.nextStamp⟩ }
  out := ⟨[], by simp, by simp⟩
  skippable := by
    rintro x (hx | hx) hignored
    · exact hstart.skippable hcontrol hx hignored
    · exact h.skippable hcontrol hx hignored
  started := by
    rw [hcontrol]
    simp

end RoundState

/-- An event that is taken again right after it was given back has no other one alive at its time and priority:
the others are before it now. -/
theorem stale_of_takes_again {s taken taken' : Federate} {event : Stamped Event}
    (htakes : Takes res s event taken)
    (hagain : Takes res (giveBack s taken event.val) (taken.fes.stampNext event.val) taken')
    {other : Stamped Event} (hmem : other ∈ s.fes.items) (hne : other ≠ event)
    (hkey : other.val.key = event.val.key) : s.isStale other.val = true := by
  obtain ⟨skipped, rest, hlive, hhanded⟩ := htakes.firstLive
  obtain ⟨skipped', rest', hlive', -⟩ := hagain.firstLive
  have hother : other ∈ skipped ∨ other ∈ rest := by
    rw [hlive.items] at hmem
    simpa [hne] using hmem
  rcases hother with hmem | hmem
  · exact hlive.stale other hmem
  have hinserted : (giveBack s taken event.val).fes = taken.fes.insert event.val := rfl
  have hin : other ∈ taken.fes.items := hhanded.items ▸ hmem
  have hbefore : other.rank Event.key < (taken.fes.stampNext event.val).rank Event.key :=
    Stamped.rank_lt_of_key_le hkey.le (taken.fes.stamped other hin)
  have hitems := hlive'.items
  have hordered := (giveBack s taken event.val).fes.ordered
  have hpresent : other ∈ (giveBack s taken event.val).fes.items := by
    rw [hinserted]
    exact StableQueue.mem_insert.mpr (.inr hin)
  rw [hitems] at hpresent hordered
  rcases List.mem_append.mp hpresent with hskipped | hbehind
  · have hstale := hlive'.stale other hskipped
    rwa [hhanded.isStale_giveBack] at hstale
  · rcases List.mem_cons.mp hbehind with rfl | hbehind
    · exact absurd hbefore (lt_irrefl _)
    · have hafter := (List.pairwise_cons.mp (List.pairwise_append.mp hordered).2.1).1 other hbehind
      exact absurd hbefore hafter.not_gt

/-! ### The law -/

/-- `putBackEvent` undoes `takeNextEvent` unless another event of the same time and priority is alive. -/
theorem putBackEvent_undoes_takeNextEvent_iff {s taken : Federate} {event : Stamped Event}
    (hstamps : (s.fes.items.map Stamped.stamp).Nodup) (htakes : Takes res s event taken) :
    (∀ u current, TakenAndPutBack res s event u current →
      (∃ taken', Takes res u current taken') ∧ SameAfterwards res (renumber s u event current) s u) ↔
      ∀ other ∈ s.fes.items, other ≠ event → other.val.key = event.val.key → s.isStale other.val = true := by
  constructor
  · intro hundoes other hmem hne hkey
    obtain ⟨⟨taken', hagain⟩, -⟩ := hundoes _ _ (.again .start htakes)
    exact stale_of_takes_again htakes hagain hmem hne hkey
  · intro hties u current hrounds
    obtain ⟨skipped, rest, hlive, -⟩ := htakes.firstLive
    obtain ⟨control, hcontrol, hcall⟩ := htakes.call
    obtain ⟨ignored, later, hold, hstart⟩ := roundState_start hlive hstamps hties
    obtain ⟨skipped', rest', hround⟩ := hrounds.roundState hold hstart
    exact ⟨exists_takes (step_call_of_same hround.same hcall) hround.firstLive,
      (hround.sameBut hstart hold hstamps hcontrol).sameAfterwards⟩

/-- One event at 1, and two at 5 for different modules. -/
def Network.tied (deleted : List ModuleId) (hmgmt : 1 ∉ deleted) : Network where
  fes := (((StableQueue.empty Event.key).insert ⟨1, 0, 2, .other⟩).insert ⟨5, 0, 2, .other⟩).insert
    ⟨5, 0, 3, .other⟩
  mgmt := 1
  deleted := deleted
  mgmt_living := hmgmt

/-- The first event at 5. -/
def tiedFirst : Stamped Event := ⟨⟨5, 0, 2, .other⟩, 1⟩

/-- The second event at 5. -/
def tiedSecond : Stamped Event := ⟨⟨5, 0, 3, .other⟩, 2⟩

/-- A grant hands out the event at 1; those at 5 can be taken without a further command. -/
def tiedLabels : List Label := [.connect 4998 .init ⟨0, 1000⟩, .call, .receive (.advanceTime 10)]

/-- The second module has been deleted. -/
theorem putBackEvent_undoes_takeNextEvent_of_deleted :
    ∃ s taken, (federate .ns).run (Network.tied [3] (by simp)).boot tiedLabels = some s ∧
      Takes .ns s tiedFirst taken ∧ ∀ u current, TakenAndPutBack .ns s tiedFirst u current →
        (∃ taken', Takes .ns u current taken') ∧ SameAfterwards .ns (renumber s u tiedFirst current) s u := by
  refine ⟨_, _, rfl, ⟨1, rfl, rfl⟩, (putBackEvent_undoes_takeNextEvent_iff ?_ ⟨1, rfl, rfl⟩).mpr ?_⟩
  · decide
  · decide

/-- Both events are alive: when the first one has been given back, the second one is handed out. -/
theorem tiedSecond_handed_out_after_putBackEvent :
    ∃ s taken, (federate .ns).run (Network.tied [] (by simp)).boot tiedLabels = some s ∧
      Takes .ns s tiedFirst taken ∧ (∃ taken', Takes .ns (giveBack s taken tiedFirst.val) tiedSecond taken') ∧
      ¬ ∃ taken', Takes .ns (giveBack s taken tiedFirst.val) (taken.fes.stampNext tiedFirst.val) taken' := by
  refine ⟨_, _, rfl, ⟨1, rfl, rfl⟩, ⟨_, 1, rfl, rfl⟩, ?_⟩
  rintro ⟨taken', hagain⟩
  have hne : tiedSecond ≠ tiedFirst := by decide
  have hstale := stale_of_takes_again ⟨1, rfl, rfl⟩ hagain (by decide) hne rfl
  revert hstale
  decide

end OmnetppFederate
