import Mathlib.Algebra.Order.BigOperators.Group.List
import Mathlib.Algebra.Order.Ring.Nat
import Mathlib.Data.Prod.Lex
import Mathlib.Data.List.Sort
import Mathlib.Data.List.Perm.Basic
import Mathlib.Order.Basic

/-! A priority queue that is stable: every insertion stamps a fresh, larger number, and the queue
hands out its items by key and, among equal keys, by stamp. The queue is a list that carries the proof
that it is in this order and that its stamps are used up. The second half keeps account of a tracked
part of the insertions while other users insert into, take from and clean up the same queue. -/

namespace OmnetppFederate.Lib

variable {α κ : Type*} [LinearOrder κ]

/-- An item with the number stamped at its insertion. -/
structure Stamped (α : Type*) where
  val : α
  stamp : Nat
  deriving DecidableEq

/-- What the queue sorts by: the key, then the stamp. -/
def Stamped.rank (key : α → κ) (x : Stamped α) : κ ×ₗ Nat := toLex (key x.val, x.stamp)

theorem Stamped.rank_lt_of_key_le {key : α → κ} {x y : Stamped α} (hkey : key x.val ≤ key y.val)
    (hstamp : x.stamp < y.stamp) : x.rank key < y.rank key :=
  Prod.Lex.toLex_lt_toLex'.mpr ⟨hkey, fun _ => hstamp⟩

theorem Stamped.key_le_of_rank_le {key : α → κ} {x y : Stamped α} (h : x.rank key ≤ y.rank key) :
    key x.val ≤ key y.val := (Prod.Lex.toLex_le_toLex'.mp h).1

/-- A queue under `key`: in order, and with every stamp below the next one. -/
structure StableQueue (key : α → κ) where
  items : List (Stamped α)
  nextStamp : Nat
  ordered : items.Pairwise fun x y => x.rank key < y.rank key
  stamped : ∀ x ∈ items, x.stamp < nextStamp

theorem pairwise_orderedInsert {ρ : Type*} [LinearOrder ρ] (rank : α → ρ) (x : α) (items : List α)
    (hitems : items.Pairwise fun a b => rank a < rank b) (hx : ∀ y ∈ items, rank x ≠ rank y) :
    (items.orderedInsert (fun a b => rank a < rank b) x).Pairwise fun a b => rank a < rank b := by
  induction items with
  | nil => simp
  | cons y ys ih =>
      obtain ⟨hy, hys⟩ := List.pairwise_cons.mp hitems
      rw [List.orderedInsert_cons]
      split_ifs with hxy
      · refine List.pairwise_cons.mpr ⟨fun z hz => ?_, hitems⟩
        rcases List.mem_cons.mp hz with rfl | hz
        · exact hxy
        · exact hxy.trans (hy z hz)
      · have hyx : rank y < rank x :=
          lt_of_le_of_ne (not_lt.mp hxy) (hx y List.mem_cons_self).symm
        refine List.pairwise_cons.mpr ⟨fun z hz => ?_, ih hys fun z hz => hx z (List.mem_cons_of_mem _ hz)⟩
        rcases (List.mem_orderedInsert _).mp hz with rfl | hz
        · exact hyx
        · exact hy z hz

namespace StableQueue

variable {key : α → κ}

def empty (key : α → κ) : StableQueue key where
  items := []
  nextStamp := 0
  ordered := List.Pairwise.nil
  stamped := by simp

/-- The item an insertion of `v` creates. -/
def stampNext (q : StableQueue key) (v : α) : Stamped α := ⟨v, q.nextStamp⟩

@[simp] theorem val_stampNext (q : StableQueue key) (v : α) : (q.stampNext v).val = v := rfl

theorem stampNext_notMem_items (q : StableQueue key) (v : α) : q.stampNext v ∉ q.items :=
  fun hmem => lt_irrefl _ (q.stamped _ hmem)

theorem rank_stampNext_ne (q : StableQueue key) (v : α) {x : Stamped α} (hx : x ∈ q.items) :
    (q.stampNext v).rank key ≠ x.rank key := by
  intro h
  have hstamp : q.nextStamp = x.stamp := congrArg (fun r => (ofLex r).2) h
  exact (q.stamped x hx).ne hstamp.symm

def insert (q : StableQueue key) (v : α) : StableQueue key where
  items := q.items.orderedInsert (fun x y => x.rank key < y.rank key) (q.stampNext v)
  nextStamp := q.nextStamp + 1
  ordered := pairwise_orderedInsert (Stamped.rank key) _ _ q.ordered fun _ hx => q.rank_stampNext_ne v hx
  stamped := by
    intro x hx
    rcases (List.mem_orderedInsert _).mp hx with rfl | hx
    · exact Nat.lt_succ_self _
    · exact Nat.lt_succ_of_lt (q.stamped x hx)

/-- The item that is handed out next. -/
def peekFirst (q : StableQueue key) : Option (Stamped α) := q.items.head?

def removeFirst (q : StableQueue key) : StableQueue key where
  items := q.items.tail
  nextStamp := q.nextStamp
  ordered := q.ordered.tail
  stamped := fun x hx => q.stamped x (List.mem_of_mem_tail hx)

/-- Drop the items that fail `keep`. -/
def retain (q : StableQueue key) (keep : Stamped α → Bool) : StableQueue key where
  items := q.items.filter keep
  nextStamp := q.nextStamp
  ordered := q.ordered.filter keep
  stamped := fun x hx => q.stamped x (List.mem_filter.mp hx).1

theorem items_insert_perm (q : StableQueue key) (v : α) :
    (q.insert v).items.Perm (q.stampNext v :: q.items) :=
  List.perm_orderedInsert _ _ _

@[simp] theorem mem_insert {q : StableQueue key} {v : α} {x : Stamped α} :
    x ∈ (q.insert v).items ↔ x = q.stampNext v ∨ x ∈ q.items :=
  List.mem_orderedInsert _

theorem insert_injective (q : StableQueue key) : Function.Injective q.insert := by
  intro v v' heq
  have hmem : q.stampNext v ∈ (q.insert v').items := heq ▸ mem_insert.mpr (.inl rfl)
  rcases mem_insert.mp hmem with hsame | hold
  · exact congrArg Stamped.val hsame
  · exact absurd hold (stampNext_notMem_items q v)

@[simp] theorem nextStamp_insert (q : StableQueue key) (v : α) :
    (q.insert v).nextStamp = q.nextStamp + 1 := rfl

@[simp] theorem nextStamp_removeFirst (q : StableQueue key) :
    q.removeFirst.nextStamp = q.nextStamp := rfl

@[simp] theorem mem_retain {q : StableQueue key} {keep : Stamped α → Bool} {x : Stamped α} :
    x ∈ (q.retain keep).items ↔ x ∈ q.items ∧ keep x = true :=
  List.mem_filter

theorem items_eq_cons {q : StableQueue key} {x : Stamped α} (hfirst : q.peekFirst = some x) :
    q.items = x :: q.removeFirst.items :=
  List.eq_cons_of_mem_head? hfirst

theorem peekFirst_eq_none {q : StableQueue key} : q.peekFirst = none ↔ q.items = [] :=
  List.head?_eq_none_iff

theorem mem_of_peekFirst {q : StableQueue key} {x : Stamped α} (hfirst : q.peekFirst = some x) :
    x ∈ q.items := by
  rw [items_eq_cons hfirst]
  exact List.mem_cons_self

theorem mem_of_mem_removeFirst {q : StableQueue key} {x : Stamped α}
    (hx : x ∈ q.removeFirst.items) : x ∈ q.items := List.mem_of_mem_tail hx

theorem first_notMem_removeFirst {q : StableQueue key} {x : Stamped α} (hfirst : q.peekFirst = some x) :
    x ∉ q.removeFirst.items := by
  have hordered := q.ordered
  rw [items_eq_cons hfirst] at hordered
  exact fun hx => lt_irrefl _ ((List.pairwise_cons.mp hordered).1 x hx)

theorem rank_first_le {q : StableQueue key} {x : Stamped α} (hfirst : q.peekFirst = some x)
    {y : Stamped α} (hy : y ∈ q.items) : x.rank key ≤ y.rank key := by
  have hordered := q.ordered
  rw [items_eq_cons hfirst] at hordered hy
  rcases List.mem_cons.mp hy with rfl | hy
  · exact le_rfl
  · exact ((List.pairwise_cons.mp hordered).1 y hy).le

/-- The first item has the least key. -/
theorem key_first_le {q : StableQueue key} {x : Stamped α} (hfirst : q.peekFirst = some x)
    {y : Stamped α} (hy : y ∈ q.items) : key x.val ≤ key y.val :=
  Stamped.key_le_of_rank_le (rank_first_le hfirst hy)

theorem exists_first {q : StableQueue key} {y : Stamped α} (hy : y ∈ q.items) :
    ∃ x, q.peekFirst = some x := by
  cases h : q.peekFirst with
  | none => rw [peekFirst_eq_none.mp h] at hy; simp at hy
  | some x => exact ⟨x, rfl⟩

/-- The items by weight. -/
def weigh (weight : Stamped α → Nat) (q : StableQueue key) : Nat := (q.items.map weight).sum

section Weights

variable {weight : Stamped α → Nat} {q : StableQueue key}

theorem weigh_insert (v : α) : (q.insert v).weigh weight = weight (q.stampNext v) + q.weigh weight := by
  rw [weigh, ((items_insert_perm q v).map weight).sum_eq, List.map_cons, List.sum_cons]
  rfl

theorem weigh_of_peekFirst {x : Stamped α} (hfirst : q.peekFirst = some x) :
    q.weigh weight = weight x + q.removeFirst.weigh weight := by
  rw [weigh, items_eq_cons hfirst, List.map_cons, List.sum_cons]
  rfl

theorem weigh_retain_le (keep : Stamped α → Bool) : (q.retain keep).weigh weight ≤ q.weigh weight :=
  (List.filter_sublist.map weight).sum_le_sum fun _ _ => Nat.zero_le _

theorem weigh_const (n : Nat) : (q.weigh fun _ => n) = n * q.items.length := by
  rw [weigh, List.map_const', List.sum_replicate, Nat.nsmul_eq_mul, Nat.mul_comm]

end Weights

end StableQueue

/-! ### Stable sorting -/

section Sorting

variable {key : α → κ}

theorem nodup_of_increasing {items : List (Stamped α)} (h : items.Pairwise fun x y => x.stamp < y.stamp) :
    items.Nodup := h.imp fun hlt heq => hlt.ne (congrArg Stamped.stamp heq)

/-- The stamps say in which order the items are. -/
theorem eq_of_increasing {items items' : List (Stamped α)} (h : items.Pairwise fun x y => x.stamp < y.stamp)
    (h' : items'.Pairwise fun x y => x.stamp < y.stamp) (hmem : ∀ x, x ∈ items ↔ x ∈ items') : items = items' :=
  List.Perm.eq_of_pairwise (fun _ _ _ _ hlt hgt => absurd hlt (lt_asymm hgt)) h h'
    ((List.perm_ext_iff_of_nodup (nodup_of_increasing h) (nodup_of_increasing h')).mpr hmem)

theorem orderedInsert_congr {ρ : Type*} {r r' : ρ → ρ → Prop} [DecidableRel r] [DecidableRel r'] {x : ρ}
    {items : List ρ} (h : ∀ y ∈ items, r x y ↔ r' x y) : items.orderedInsert r x = items.orderedInsert r' x := by
  induction items with
  | nil => rfl
  | cons y items ih =>
      obtain ⟨hy, hrest⟩ := List.forall_mem_cons.mp h
      simp only [List.orderedInsert_cons, hy, ih hrest]

theorem rank_lt_iff_of_stamp_lt {x y : Stamped α} (hstamp : x.stamp < y.stamp) :
    x.rank key < y.rank key ↔ key x.val ≤ key y.val :=
  ⟨fun hrank => Stamped.key_le_of_rank_le hrank.le, fun hkey => Stamped.rank_lt_of_key_le hkey hstamp⟩

/-- Sorting insertions by key puts them in order of rank. -/
theorem pairwise_insertionSort {items : List (Stamped α)} (h : items.Pairwise fun x y => x.stamp < y.stamp) :
    (items.insertionSort fun x y => key x.val ≤ key y.val).Pairwise fun x y => x.rank key < y.rank key := by
  induction items with
  | nil => exact .nil
  | cons x items ih =>
      obtain ⟨hx, hitems⟩ := List.pairwise_cons.mp h
      have hlater : ∀ y ∈ items.insertionSort (fun x y => key x.val ≤ key y.val), x.stamp < y.stamp :=
        fun y hy => hx y ((List.mem_insertionSort _).mp hy)
      have hinsert : (items.insertionSort fun x y => key x.val ≤ key y.val).orderedInsert
          (fun x y => key x.val ≤ key y.val) x =
          (items.insertionSort fun x y => key x.val ≤ key y.val).orderedInsert
            (fun x y => x.rank key < y.rank key) x :=
        orderedInsert_congr fun y hy => (rank_lt_iff_of_stamp_lt (hlater y hy)).symm
      rw [List.insertionSort_cons, hinsert]
      refine pairwise_orderedInsert (Stamped.rank key) x _ (ih hitems) fun y hy heq => ?_
      exact (hlater y hy).ne (congrArg (fun rank => (ofLex rank).2) heq)

/-- So what is in order of rank is the stable sort of its insertions. -/
theorem eq_insertionSort_of_rank {items insertions : List (Stamped α)} (hperm : items.Perm insertions)
    (hstamps : insertions.Pairwise fun x y => x.stamp < y.stamp)
    (hranks : items.Pairwise fun x y => x.rank key < y.rank key) :
    items = insertions.insertionSort fun x y => key x.val ≤ key y.val := by
  refine List.Perm.eq_of_pairwise (fun x y _ _ hxy hyx => absurd hxy (lt_asymm hyx)) hranks
    (pairwise_insertionSort hstamps) (hperm.trans (List.perm_insertionSort _ _).symm)

end Sorting

/-! ### Tracked insertions

One user of the queue follows its own insertions `tracked`, in order, through the list `removed` of all
the items handed out, while others insert, remove and discard what is not tracked. -/

variable [DecidableEq α] {key : α → κ}

/-- The tracked items are those handed out and those pending, and equal or later keys of later
insertions wait. -/
structure Tracked (q : StableQueue key) (tracked removed : List (Stamped α)) : Prop where
  increasing : tracked.Pairwise fun x y => x.stamp < y.stamp
  used : ∀ x ∈ tracked ++ removed, x.stamp < q.nextStamp
  account : tracked.Perm
    (removed.filter (· ∈ tracked) ++ q.items.filter (· ∈ tracked))
  inOrder : ∀ pre y post, removed = pre ++ y :: post → y ∈ tracked →
    ∀ x ∈ tracked, x.stamp < y.stamp → key x.val ≤ key y.val → x ∈ pre

namespace Tracked

open StableQueue

variable {q : StableQueue key} {tracked removed : List (Stamped α)}

theorem start (q : StableQueue key) : Tracked q [] [] where
  increasing := List.Pairwise.nil
  used := by simp
  account := by simp
  inOrder := by simp

theorem stampNext_notMem_removed (h : Tracked q tracked removed) (v : α) :
    q.stampNext v ∉ tracked ++ removed :=
  fun hmem => lt_irrefl _ (h.used _ hmem)

/-- Extending the tracked list by `x` changes no membership among items other than `x`. -/
theorem filter_mem_concat {items : List (Stamped α)} {x : Stamped α} (hx : x ∉ items) :
    items.filter (· ∈ tracked ++ [x]) = items.filter (· ∈ tracked) := by
  refine List.filter_congr fun y hy => ?_
  have hne : y ≠ x := fun h => hx (h ▸ hy)
  simp [hne]

/-- A tracked insertion joins the pending items. -/
theorem insert (h : Tracked q tracked removed) (v : α) :
    Tracked (q.insert v) (tracked ++ [q.stampNext v]) removed where
  increasing := by
    refine List.pairwise_append.mpr ⟨h.increasing, List.pairwise_singleton _ _, fun x hx y hy => ?_⟩
    rw [List.mem_singleton.mp hy]
    exact h.used x (List.mem_append_left _ hx)
  used := by
    intro x hx
    simp only [List.append_assoc, List.mem_append, List.mem_singleton] at hx
    rcases hx with hx | rfl | hx
    · exact Nat.lt_succ_of_lt (h.used x (List.mem_append_left _ hx))
    · exact Nat.lt_succ_self _
    · exact Nat.lt_succ_of_lt (h.used x (List.mem_append_right _ hx))
  account := by
    have hremoved : q.stampNext v ∉ removed :=
      fun hmem => h.stampNext_notMem_removed v (List.mem_append_right _ hmem)
    have hitems : ((q.insert v).items.filter (· ∈ tracked ++ [q.stampNext v])).Perm
        (q.stampNext v :: q.items.filter (· ∈ tracked)) := by
      refine ((q.items_insert_perm v).filter _).trans ?_
      rw [List.filter_cons_of_pos (by simp), filter_mem_concat (stampNext_notMem_items q v)]
    have hcons : (tracked ++ [q.stampNext v]).Perm
        (q.stampNext v :: (removed.filter (· ∈ tracked) ++ q.items.filter (· ∈ tracked))) :=
      (List.perm_append_singleton _ _).trans (h.account.cons _)
    rw [filter_mem_concat hremoved]
    exact (hcons.trans List.perm_middle.symm).trans (hitems.symm.append_left _)
  inOrder := by
    intro pre y post heq hy x hx hstamp hkey
    have hymem : y ∈ removed := by rw [heq]; simp
    have hyused := h.used y (List.mem_append_right _ hymem)
    rcases List.mem_append.mp hx with hx | hx
    · refine h.inOrder pre y post heq ?_ x hx hstamp hkey
      rcases List.mem_append.mp hy with hy | hy
      · exact hy
      · rw [List.mem_singleton.mp hy] at hyused
        exact absurd hyused (lt_irrefl _)
    · rw [List.mem_singleton.mp hx] at hstamp
      exact absurd (hstamp.trans hyused) (lt_irrefl _)

/-- Another user's insertion is not accounted for. -/
theorem insert_other (h : Tracked q tracked removed) (v : α) :
    Tracked (q.insert v) tracked removed where
  increasing := h.increasing
  used := fun x hx => Nat.lt_succ_of_lt (h.used x hx)
  account := by
    have hnot : q.stampNext v ∉ tracked :=
      fun hmem => h.stampNext_notMem_removed v (List.mem_append_left _ hmem)
    have hitems : ((q.insert v).items.filter (· ∈ tracked)).Perm (q.items.filter (· ∈ tracked)) := by
      refine ((q.items_insert_perm v).filter _).trans ?_
      rw [List.filter_cons_of_neg (by simpa using hnot)]
    exact h.account.trans (hitems.symm.append_left _)
  inOrder := h.inOrder

/-- Handing out the first item moves it to the other side of the account. -/
theorem handOut (h : Tracked q tracked removed) {x : Stamped α} (hfirst : q.peekFirst = some x) :
    Tracked q.removeFirst tracked (removed ++ [x]) where
  increasing := h.increasing
  used := by
    intro y hy
    rw [← List.append_assoc] at hy
    rcases List.mem_append.mp hy with hy | hy
    · exact h.used y hy
    · rw [List.mem_singleton.mp hy]
      exact q.stamped x (mem_of_peekFirst hfirst)
  account := by
    refine h.account.trans ?_
    rw [items_eq_cons hfirst, List.filter_append, List.append_assoc]
    refine List.Perm.append_left _ ?_
    by_cases hx : x ∈ tracked
    · simp [hx]
    · simp [hx]
  inOrder := by
    intro pre y post heq hy x' hx' hstamp hkey
    rcases List.eq_nil_or_concat post with rfl | ⟨post, z, rfl⟩
    · obtain ⟨rfl, hlast⟩ := List.append_inj' heq rfl
      obtain rfl : x = y := by simpa using hlast
      -- `x'` is accounted for; were it still pending, it would come before the first item
      have hmem := h.account.mem_iff.mp hx'
      rw [List.mem_append, List.mem_filter, List.mem_filter] at hmem
      rcases hmem with ⟨hmem, _⟩ | ⟨hmem, _⟩
      · exact hmem
      · exact absurd (rank_first_le hfirst hmem)
          (not_le.mpr (Stamped.rank_lt_of_key_le hkey hstamp))
    · have hsplit : removed = pre ++ y :: post := by
        have heq' : removed ++ [x] = (pre ++ y :: post) ++ [z] := by simpa using heq
        exact (List.append_inj' heq' rfl).1
      exact h.inOrder pre y post hsplit hy x' hx' hstamp hkey

/-- Dropping an untracked first item leaves the account as it is. -/
theorem dropFirst (h : Tracked q tracked removed) {x : Stamped α} (hfirst : q.peekFirst = some x)
    (hx : x ∉ tracked) : Tracked q.removeFirst tracked removed where
  increasing := h.increasing
  used := h.used
  account := by
    have hitems : q.items.filter (· ∈ tracked) = q.removeFirst.items.filter (· ∈ tracked) := by
      rw [items_eq_cons hfirst, List.filter_cons_of_neg (by simpa using hx)]
    rw [← hitems]
    exact h.account
  inOrder := h.inOrder

/-- Discarding untracked items leaves the account as it is. -/
theorem retain (h : Tracked q tracked removed) {keep : Stamped α → Bool}
    (hkeep : ∀ x ∈ q.items, x ∈ tracked → keep x = true) : Tracked (q.retain keep) tracked removed where
  increasing := h.increasing
  used := h.used
  account := by
    have hitems : (q.retain keep).items.filter (· ∈ tracked) = q.items.filter (· ∈ tracked) := by
      rw [StableQueue.retain, List.filter_filter]
      refine List.filter_congr fun x hx => ?_
      by_cases hmem : x ∈ tracked
      · simp [hmem, hkeep x hx hmem]
      · simp [hmem]
    rw [hitems]
    exact h.account
  inOrder := h.inOrder

/-- Part of the tracked items can be tracked by itself. -/
theorem filter (h : Tracked q tracked removed) (keep : Stamped α → Bool) :
    Tracked q (tracked.filter keep) removed where
  increasing := h.increasing.filter keep
  used := by
    intro x hx
    rcases List.mem_append.mp hx with hx | hx
    · exact h.used x (List.mem_append_left _ (List.mem_of_mem_filter hx))
    · exact h.used x (List.mem_append_right _ hx)
  account := by
    have hfilter : ∀ items : List (Stamped α),
        (items.filter (· ∈ tracked)).filter keep = items.filter (· ∈ tracked.filter keep) := by
      intro items
      rw [List.filter_filter]
      refine List.filter_congr fun x _ => ?_
      rw [Bool.eq_iff_iff]
      simp [and_comm]
    calc (tracked.filter keep).Perm
          ((removed.filter (· ∈ tracked) ++ q.items.filter (· ∈ tracked)).filter keep) := h.account.filter keep
      _ = removed.filter (· ∈ tracked.filter keep) ++ q.items.filter (· ∈ tracked.filter keep) := by
          rw [List.filter_append, hfilter, hfilter]
  inOrder pre y post heq hy x hx :=
    h.inOrder pre y post heq (List.mem_of_mem_filter hy) x (List.mem_of_mem_filter hx)

/-- A tracked item is handed out or pending. -/
theorem removed_or_pending (h : Tracked q tracked removed) {x : Stamped α} (hx : x ∈ tracked) :
    x ∈ removed ∨ x ∈ q.items := by
  have hmem := h.account.mem_iff.mp hx
  rw [List.mem_append, List.mem_filter, List.mem_filter] at hmem
  exact hmem.imp And.left And.left

/-- The account has no item twice. -/
theorem nodup (h : Tracked q tracked removed) :
    (removed.filter (· ∈ tracked) ++ q.items.filter (· ∈ tracked)).Nodup :=
  h.account.nodup_iff.mp (h.increasing.imp fun hlt heq => hlt.ne (congrArg Stamped.stamp heq))

theorem notMem_removed (h : Tracked q tracked removed) {x : Stamped α} (hx : x ∈ tracked) (hitem : x ∈ q.items) :
    x ∉ removed := by
  intro hremoved
  obtain ⟨-, -, hdisjoint⟩ := List.nodup_append.mp h.nodup
  exact hdisjoint x (List.mem_filter.mpr ⟨hremoved, by simpa using hx⟩) x
    (List.mem_filter.mpr ⟨hitem, by simpa using hx⟩) rfl

theorem eq_of_stamp (h : Tracked q tracked removed) {x y : Stamped α} (hx : x ∈ tracked) (hy : y ∈ tracked)
    (hstamp : x.stamp = y.stamp) : x = y := by
  have hstamps : (tracked.map Stamped.stamp).Nodup :=
    List.pairwise_map.mpr (h.increasing.imp fun hlt => hlt.ne)
  exact List.inj_on_of_nodup_map hstamps hx hy hstamp

/-- What was handed out by itself in order of the keys was handed out in order of rank. -/
theorem pairwise_rank (h : Tracked q tracked removed)
    (hkeys : (removed.filter (· ∈ tracked)).Pairwise fun x y => key x.val ≤ key y.val) :
    (removed.filter (· ∈ tracked)).Pairwise fun x y => x.rank key < y.rank key := by
  have hnodup := (List.nodup_append.mp h.nodup).1
  refine List.pairwise_of_forall_sublist fun {x y} hsublist => ?_
  have hkey : key x.val ≤ key y.val := hkeys.forall_sublist hsublist
  have hmem : ∀ z ∈ [x, y], z ∈ tracked := fun z hz => by simpa using (List.mem_filter.mp (hsublist.subset hz)).2
  obtain ⟨hx, hy⟩ : x ∈ tracked ∧ y ∈ tracked := ⟨hmem x (by simp), hmem y (by simp)⟩
  rcases lt_trichotomy x.stamp y.stamp with hstamp | hstamp | hstamp
  · exact Stamped.rank_lt_of_key_le hkey hstamp
  · exact absurd (h.eq_of_stamp hx hy hstamp) (hnodup.forall_sublist hsublist)
  · refine Prod.Lex.toLex_lt_toLex.mpr (.inl (lt_of_not_ge fun hback => ?_))
    -- otherwise `y` was handed out before `x` as well as after it
    obtain ⟨before, after, heq, hbefore, hafter⟩ := List.cons_sublist_iff.mp (hsublist.trans List.filter_sublist)
    obtain ⟨pre, post, rfl⟩ := List.append_of_mem hbefore
    rw [List.append_assoc, List.cons_append] at heq
    have hpre := h.inOrder pre x (post ++ after) heq hx y hy hstamp hback
    rw [heq, List.filter_append] at hnodup
    refine (List.nodup_append.mp hnodup).2.2 y ?_ y ?_ rfl
    · exact List.mem_filter.mpr ⟨hpre, by simpa using hy⟩
    · refine List.mem_filter.mpr ⟨?_, by simpa using hy⟩
      exact List.mem_cons_of_mem _ (List.mem_append_right _ (hafter.subset List.mem_cons_self))

/-- When what has been handed out by now is exactly what is due, in order of the keys, then it is the stable sort of
the insertions that are due. -/
theorem removed_eq_insertionSort (h : Tracked q tracked removed) {due : Stamped α → Bool}
    (hkeys : (removed.filter (· ∈ tracked)).Pairwise fun x y => key x.val ≤ key y.val)
    (hdue : ∀ x ∈ tracked, x ∈ removed ↔ due x = true) :
    removed.filter (· ∈ tracked) = (tracked.filter due).insertionSort fun x y => key x.val ≤ key y.val := by
  refine eq_insertionSort_of_rank ?_ (h.increasing.filter due) (h.pairwise_rank hkeys)
  have hnodup := (List.nodup_append.mp h.nodup).1
  have hdistinct := (nodup_of_increasing h.increasing).filter due
  refine (List.perm_ext_iff_of_nodup hnodup hdistinct).mpr fun x => ?_
  rw [List.mem_filter, List.mem_filter, decide_eq_true_eq, and_comm]
  exact and_congr_right (hdue x)

end Tracked

end OmnetppFederate.Lib
