import OmnetppFederate.LibStableQueue

/-! Stable queues that differ in their stamps. An item that is taken out and inserted again has another stamp
than before, and so has everything that is inserted later. Two queues hold the same items in the same order if
a renaming of the stamps leads from one to the other; some items can be left out of the comparison. -/

namespace OmnetppFederate.Lib

variable {α κ : Type*} [LinearOrder κ] {key : α → κ}

/-- The item with its stamp renamed. -/
def Stamped.restamp (rename : Nat → Nat) (x : Stamped α) : Stamped α := ⟨x.val, rename x.stamp⟩

@[simp] theorem Stamped.val_restamp (rename : Nat → Nat) (x : Stamped α) : (x.restamp rename).val = x.val := rfl

@[simp] theorem Stamped.stamp_restamp (rename : Nat → Nat) (x : Stamped α) :
    (x.restamp rename).stamp = rename x.stamp := rfl

/-- An item with the largest stamp goes behind all items with its key. -/
theorem orderedInsert_of_stamp_lt {x : Stamped α} {items : List (Stamped α)}
    (hitems : items.Pairwise fun y z => y.rank key < z.rank key) (hx : ∀ y ∈ items, y.stamp < x.stamp) :
    items.orderedInsert (fun y z => y.rank key < z.rank key) x =
      items.filter (fun y => key y.val ≤ key x.val) ++ x ::
        items.filter (fun y => ¬ key y.val ≤ key x.val) := by
  induction items with
  | nil => rfl
  | cons y items ih =>
      obtain ⟨hy, hitems⟩ := List.pairwise_cons.mp hitems
      have hstamp := hx y List.mem_cons_self
      rw [List.orderedInsert_cons]
      by_cases hkey : key y.val ≤ key x.val
      · have hnot : ¬ x.rank key < y.rank key := not_lt_of_gt (Stamped.rank_lt_of_key_le hkey hstamp)
        rw [if_neg hnot, ih hitems fun z hz => hx z (List.mem_cons_of_mem _ hz),
          List.filter_cons_of_pos (by simpa using hkey), List.filter_cons_of_neg (by simpa using hkey),
          List.cons_append]
      · -- all that follow have keys that are as large
        have hlarger : ∀ z ∈ y :: items, ¬ key z.val ≤ key x.val := by
          intro z hz hle
          rcases List.mem_cons.mp hz with rfl | hz
          · exact hkey hle
          · exact hkey ((Stamped.key_le_of_rank_le (hy z hz).le).trans hle)
        have hlt : x.rank key < y.rank key := Prod.Lex.toLex_lt_toLex.mpr (.inl (not_le.mp hkey))
        rw [if_pos hlt, List.filter_eq_nil_iff.mpr (by simpa using hlarger),
          List.filter_eq_self.mpr (by simpa using hlarger), List.nil_append]

namespace StableQueue

theorem items_insert (q : StableQueue key) (v : α) :
    (q.insert v).items =
      q.items.filter (fun x => key x.val ≤ key v) ++ q.stampNext v ::
        q.items.filter (fun x => ¬ key x.val ≤ key v) :=
  orderedInsert_of_stamp_lt q.ordered q.stamped

end StableQueue

/-! ### Renamed stamps -/

/-- But for the ignored stamps, the second queue holds the items of the first one under other stamps, and what
is inserted into both from now on corresponds as well. -/
structure Restamped (rename : Nat → Nat) (ignored : List Nat) (q q' : StableQueue key) : Prop where
  items : q'.items.filter (·.stamp ∉ ignored) =
    (q.items.filter (·.stamp ∉ ignored)).map (Stamped.restamp rename)
  injective : Function.Injective rename
  next : ∀ n, rename (q.nextStamp + n) = q'.nextStamp + n
  old : ∀ stamp ∈ ignored, stamp < q.nextStamp ∧ stamp < q'.nextStamp

namespace Restamped

open StableQueue

variable {rename : Nat → Nat} {ignored : List Nat} {q q' : StableQueue key}

theorem restamp_stampNext (h : Restamped rename ignored q q') (v : α) :
    (q.stampNext v).restamp rename = q'.stampNext v := by
  have hnext : rename q.nextStamp = q'.nextStamp := h.next 0
  rw [Stamped.restamp, stampNext, hnext]
  rfl

theorem insert (h : Restamped rename ignored q q') (v : α) :
    Restamped rename ignored (q.insert v) (q'.insert v) where
  items := by
    have hpart : ∀ p : α → Bool, (q'.items.filter fun x => p x.val).filter (·.stamp ∉ ignored) =
        ((q.items.filter fun x => p x.val).filter (·.stamp ∉ ignored)).map (Stamped.restamp rename) := by
      intro p
      rw [List.filter_comm, h.items, List.filter_map, List.filter_comm]
      rfl
    have hnew : (q.stampNext v).stamp ∉ ignored := fun hmem => lt_irrefl _ (h.old _ hmem).1
    have hnew' : (q'.stampNext v).stamp ∉ ignored := fun hmem => lt_irrefl _ (h.old _ hmem).2
    have hbefore := hpart fun w => key w ≤ key v
    have hafter := hpart fun w => ¬ key w ≤ key v
    rw [items_insert, items_insert, List.filter_append, List.filter_append,
      List.filter_cons_of_pos (by simpa using hnew'), List.filter_cons_of_pos (by simpa using hnew),
      List.map_append, List.map_cons, h.restamp_stampNext, hbefore, hafter]
  injective := h.injective
  next n := by
    rw [nextStamp_insert, nextStamp_insert, Nat.add_assoc, Nat.add_assoc, h.next]
  old stamp hstamp := ⟨Nat.lt_succ_of_lt (h.old stamp hstamp).1, Nat.lt_succ_of_lt (h.old stamp hstamp).2⟩

/-- Users that keep corresponding items. -/
theorem retain (h : Restamped rename ignored q q') {keep keep' : Stamped α → Bool}
    (hkeep : ∀ x ∈ q.items, x.stamp ∉ ignored → keep' (x.restamp rename) = keep x) :
    Restamped rename ignored (q.retain keep) (q'.retain keep') where
  items := by
    simp only [StableQueue.retain]
    rw [List.filter_comm _ _ q'.items, h.items, List.filter_map, List.filter_comm _ keep q.items]
    refine congrArg _ (List.filter_congr fun x hx => ?_)
    obtain ⟨hmem, hkept⟩ := List.mem_filter.mp hx
    exact hkeep x hmem (by simpa using hkept)
  injective := h.injective
  next := h.next
  old := h.old

/-- The first item of the first queue is ignored. -/
theorem dropLeft (h : Restamped rename ignored q q') {x : Stamped α} (hfirst : q.peekFirst = some x)
    (hx : x.stamp ∈ ignored) : Restamped rename ignored q.removeFirst q' where
  items := by
    rw [h.items, items_eq_cons hfirst, List.filter_cons_of_neg (by simpa using hx)]
  injective := h.injective
  next := h.next
  old := h.old

theorem dropRight (h : Restamped rename ignored q q') {x : Stamped α} (hfirst : q'.peekFirst = some x)
    (hx : x.stamp ∈ ignored) : Restamped rename ignored q q'.removeFirst where
  items := by
    rw [← h.items, items_eq_cons hfirst, List.filter_cons_of_neg (by simpa using hx)]
  injective := h.injective
  next := h.next
  old := h.old

/-- First items that are not ignored correspond. -/
theorem removeFirst (h : Restamped rename ignored q q') {x x' : Stamped α} (hfirst : q.peekFirst = some x)
    (hfirst' : q'.peekFirst = some x') (hx : x.stamp ∉ ignored) (hx' : x'.stamp ∉ ignored) :
    x' = x.restamp rename ∧ Restamped rename ignored q.removeFirst q'.removeFirst := by
  have hitems := h.items
  rw [items_eq_cons hfirst, items_eq_cons hfirst', List.filter_cons_of_pos (by simpa using hx'),
    List.filter_cons_of_pos (by simpa using hx), List.map_cons] at hitems
  obtain ⟨hhead, htail⟩ := List.cons.inj hitems
  exact ⟨hhead, htail, h.injective, h.next, h.old⟩

/-- An item of the second queue is ignored or comes from the first one. -/
theorem mem_right (h : Restamped rename ignored q q') {x' : Stamped α} (hx' : x' ∈ q'.items)
    (hkept : x'.stamp ∉ ignored) : ∃ x ∈ q.items, x.stamp ∉ ignored ∧ x.restamp rename = x' := by
  have hmem : x' ∈ q'.items.filter (·.stamp ∉ ignored) := List.mem_filter.mpr ⟨hx', by simpa using hkept⟩
  rw [h.items] at hmem
  obtain ⟨x, hx, hrestamp⟩ := List.mem_map.mp hmem
  obtain ⟨hmem, hnot⟩ := List.mem_filter.mp hx
  exact ⟨x, hmem, by simpa using hnot, hrestamp⟩

theorem mem_left (h : Restamped rename ignored q q') {x : Stamped α} (hx : x ∈ q.items)
    (hkept : x.stamp ∉ ignored) : x.restamp rename ∈ q'.items := by
  have hmem : x.restamp rename ∈ (q.items.filter (·.stamp ∉ ignored)).map (Stamped.restamp rename) :=
    List.mem_map.mpr ⟨x, List.mem_filter.mpr ⟨hx, by simpa using hkept⟩, rfl⟩
  rw [← h.items] at hmem
  exact (List.mem_filter.mp hmem).1

/-- The first items correspond if neither is ignored. -/
theorem peekFirst_map (h : Restamped rename ignored q q')
    (hfirst : ∀ x, q.peekFirst = some x → x.stamp ∉ ignored)
    (hfirst' : ∀ x', q'.peekFirst = some x' → x'.stamp ∉ ignored) :
    q'.peekFirst = q.peekFirst.map (Stamped.restamp rename) := by
  cases hx : q.peekFirst with
  | none =>
      cases hx' : q'.peekFirst with
      | none => rfl
      | some x' =>
          obtain ⟨x, hmem, -, -⟩ := h.mem_right (mem_of_peekFirst hx') (hfirst' x' hx')
          rw [peekFirst_eq_none.mp hx] at hmem
          cases hmem
  | some x =>
      obtain ⟨x', hx'⟩ := exists_first (h.mem_left (mem_of_peekFirst hx) (hfirst x hx))
      rw [hx', (h.removeFirst hx hx' (hfirst x hx) (hfirst' x' hx')).1]
      rfl

end Restamped

end OmnetppFederate.Lib
