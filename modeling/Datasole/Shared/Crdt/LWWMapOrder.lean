import Mathlib.Data.List.TakeWhile
import Datasole.Shared.Crdt.LWWMap

/-!
# Delivery order of map operations

Two replicas that apply the same operations in different orders need not agree: a `remove` that
arrives before any `set` of its key leaves no tombstone, so an older `set` that arrives later
survives. `apply_order_independent_iff` says that this is the only way in which the order shows: a
set of operations gives the same record in every order exactly when no key has a `remove` as its
newest operation and a `set` whose value that `remove` should have hidden.
-/

namespace Datasole

variable {V : Type*}

/-- The newest operation of `ops` on its key. -/
def NewestOn (ops : List (CrdtOperation V)) (op : CrdtOperation V) : Prop :=
  op ∈ ops ∧ ∀ o ∈ ops, o.key = op.key → o.timestamp ≤ op.timestamp

/-- The newest `set` of `ops` on its key. -/
def NewestSetOn (ops : List (CrdtOperation V)) (op : CrdtOperation V) : Prop :=
  op ∈ ops ∧ op.op = .set ∧
    ∀ o ∈ ops, o.op = .set → o.key = op.key → o.timestamp ≤ op.timestamp

namespace MapWrite

/-! ## What the writes of one key leave, in any order -/

/-- A `set` is not dropped with the deletions before it. -/
theorem mem_dropWhile {ws : List (MapWrite V)} {w : MapWrite V} (hw : w ∈ ws)
    (hset : w.isDelete = false) : w ∈ ws.dropWhile isDelete := by
  induction ws with
  | nil => cases hw
  | cons x xs ih =>
    rw [List.dropWhile_cons]
    split
    · next hx =>
      rcases List.mem_cons.mp hw with rfl | hw
      · rw [hset] at hx; cases hx
      · exact ih hw
    · exact hw

/-- A newest write that is a `set` is kept, wherever it stands in the order. -/
theorem kept_eq_some {ws : List (MapWrite V)} {n : MapWrite V} (hn : n ∈ ws)
    (hset : n.isDelete = false) (hmax : ∀ w ∈ ws, w.timestamp ≤ n.timestamp)
    (huniq : ∀ w ∈ ws, w.timestamp = n.timestamp → w = n) : kept ws = some n :=
  have hsub := (List.dropWhile_sublist (l := ws) isDelete).subset
  Newest.newest_eq_some (mem_dropWhile hn hset) (fun w hw => hmax w (hsub hw))
    (fun w hw => huniq w (hsub hw))

/-- A deletion leaves nothing. -/
theorem outcome_of_isDelete {w : MapWrite V} (h : w.isDelete = true) : w.outcome = none := by
  obtain ⟨key, t, kind⟩ := w
  cases kind with
  | set v => cases h
  | delete => rfl

/-- If the newest `set` carries no value, nothing is read, whatever the order. -/
theorem reading_eq_none {ws : List (MapWrite V)}
    (hs : ∀ s ∈ ws, s.isDelete = false →
      (∀ w ∈ ws, w.isDelete = false → w.timestamp ≤ s.timestamp) → s.outcome = none) :
    reading ws = none := by
  unfold reading
  cases hk : kept ws with
  | none => rfl
  | some x =>
    obtain ⟨hx, hmax⟩ := Newest.newest_spec hk
    cases hd : x.isDelete with
    | true => exact outcome_of_isDelete hd
    | false =>
      exact hs x ((List.dropWhile_sublist _).subset hx) hd
        fun w hw hset => hmax w (mem_dropWhile hw hset)

/-- Deletions first: only the `set`s count. -/
theorem reading_deletes_append {ds ss : List (MapWrite V)} (hds : ∀ d ∈ ds, d.isDelete = true)
    {s : MapWrite V} (hs : s ∈ ss) (hset : s.isDelete = false)
    (hmax : ∀ w ∈ ss, w.timestamp ≤ s.timestamp)
    (huniq : ∀ w ∈ ss, w.timestamp = s.timestamp → w = s) :
    reading (ds ++ ss) = s.outcome := by
  have hdrop : (ds ++ ss).dropWhile isDelete = ss.dropWhile isDelete := by
    rw [List.dropWhile_append, List.dropWhile_eq_nil_iff.mpr hds]
    simp
  have hkept : kept (ds ++ ss) = kept ss := by unfold kept; rw [hdrop]
  rw [reading, hkept, kept_eq_some hs hset hmax huniq, Option.bind_some]

/-- Deletions last: the newest one counts. -/
theorem reading_append_deletes {ds ss : List (MapWrite V)} (hss : ∀ s ∈ ss, s.isDelete = false)
    (hne : ss ≠ []) {r : MapWrite V} (hr : r ∈ ds) (hdel : r.isDelete = true)
    (hmax : ∀ w ∈ ss ++ ds, w.timestamp ≤ r.timestamp)
    (huniq : ∀ w ∈ ss ++ ds, w.timestamp = r.timestamp → w = r) :
    reading (ss ++ ds) = none := by
  have hdrop : (ss ++ ds).dropWhile isDelete = ss ++ ds := by
    cases ss with
    | nil => exact absurd rfl hne
    | cons s ss =>
      rw [List.cons_append, List.dropWhile_cons, hss s List.mem_cons_self, if_neg (by simp)]
  have hkept : kept (ss ++ ds) = some r := by
    unfold kept
    rw [hdrop]
    exact Newest.newest_eq_some (List.mem_append_right _ hr) hmax huniq
  rw [reading, hkept, Option.bind_some, outcome_of_isDelete hdel]

end MapWrite

section Order

open MapWrite

variable {ops l : List (CrdtOperation V)}

/-- The write of a map operation. -/
theorem ofOp_eq_some {op : CrdtOperation V} {w : MapWrite V} :
    ofOp op = some w ↔ op.key = some w.key ∧ w.key ≠ "" ∧ op.timestamp = w.timestamp ∧
      ((op.op = .set ∧ w.kind = .set op.value) ∨ (op.op = .remove ∧ w.kind = .delete)) := by
  obtain ⟨type, nodeId, timestamp, kind, key, value⟩ := op
  obtain ⟨wkey, wt, wkind⟩ := w
  cases kind <;> cases key <;> simp only [ofOp]
  all_goals grind

/-- The operation of a deletion is `remove`. -/
theorem isDelete_ofOp {op : CrdtOperation V} {w : MapWrite V} (h : ofOp op = some w) :
    w.isDelete = decide (op.op = .remove) := by
  obtain ⟨-, -, -, ⟨hop, hkind⟩ | ⟨hop, hkind⟩⟩ := ofOp_eq_some.mp h <;>
    simp [isDelete, hop, hkind]

/-- That of any other write is `set`. -/
theorem op_eq_set {op : CrdtOperation V} {w : MapWrite V} (h : ofOp op = some w)
    (hset : w.isDelete = false) : op.op = .set ∧ w.outcome = op.value := by
  obtain ⟨-, -, -, ⟨hop, hkind⟩ | ⟨hop, hkind⟩⟩ := ofOp_eq_some.mp h
  · exact ⟨hop, by rw [outcome, hkind]⟩
  · rw [isDelete, hkind] at hset; cases hset

/-- Every operation of a map is the write of a key. -/
theorem IsMapOp.exists_write {op : CrdtOperation V} (h : IsMapOp op) : ∃ w, ofOp op = some w := by
  obtain ⟨hkind, key, hkey, hne⟩ := h
  rcases hkind with hk | hk
  · exact ⟨⟨key, op.timestamp, .set op.value⟩, ofOp_eq_some.mpr ⟨hkey, hne, rfl, Or.inl ⟨hk, rfl⟩⟩⟩
  · exact ⟨⟨key, op.timestamp, .delete⟩, ofOp_eq_some.mpr ⟨hkey, hne, rfl, Or.inr ⟨hk, rfl⟩⟩⟩

/-- The writes of one key in a list of operations. -/
theorem mem_onKey {key : String} {w : MapWrite V} :
    w ∈ onKey (l.filterMap ofOp) key ↔ (∃ op ∈ l, ofOp op = some w) ∧ w.key = key := by
  simp [onKey, List.mem_filterMap]

/-- Permuting the operations leaves the writes of a key the same as a set. -/
theorem mem_onKey_perm (h : l.Perm ops) {key : String} {w : MapWrite V} :
    w ∈ onKey (l.filterMap ofOp) key ↔ w ∈ onKey (ops.filterMap ofOp) key := by
  simp only [mem_onKey, h.mem_iff]

/-- Operations of one key with different timestamps have writes with different timestamps. -/
theorem onKey_unique
    (hts : ∀ o ∈ ops, ∀ o' ∈ ops, o.key = o'.key → o.timestamp = o'.timestamp → o = o')
    {key : String} {w w' : MapWrite V} (hw : w ∈ onKey (ops.filterMap ofOp) key)
    (hw' : w' ∈ onKey (ops.filterMap ofOp) key) (h : w.timestamp = w'.timestamp) : w = w' := by
  obtain ⟨⟨o, ho, how⟩, hk⟩ := mem_onKey.mp hw
  obtain ⟨⟨o', ho', how'⟩, hk'⟩ := mem_onKey.mp hw'
  obtain ⟨hkey, -, ht, -⟩ := ofOp_eq_some.mp how
  obtain ⟨hkey', -, ht', -⟩ := ofOp_eq_some.mp how'
  have heq : o = o' := hts o ho o' ho' (by rw [hkey, hkey', hk, hk']) (by rw [ht, ht', h])
  subst heq
  exact Option.some.inj (how.symm.trans how')

/-- With a newest `set` that carries no value under every newest `remove`, each key reads the same
in every order: what its newest operation leaves. -/
theorem reading_perm (hops : ∀ o ∈ ops, IsMapOp o)
    (hts : ∀ o ∈ ops, ∀ o' ∈ ops, o.key = o'.key → o.timestamp = o'.timestamp → o = o')
    (hcond : ∀ r s, NewestOn ops r → r.op = .remove → NewestSetOn ops s → s.key = r.key →
      s.value = none) (h : l.Perm ops) (key : String) :
    reading (onKey (l.filterMap ofOp) key) =
      (Newest.newest timestamp (onKey (ops.filterMap ofOp) key)).bind outcome := by
  cases hn : Newest.newest timestamp (onKey (ops.filterMap ofOp) key) with
  | none =>
    rw [Newest.newest_eq_none] at hn
    have hnil : onKey (l.filterMap ofOp) key = [] :=
      List.eq_nil_iff_forall_not_mem.mpr fun w hw => by
        rw [mem_onKey_perm h, hn] at hw; cases hw
    rw [hnil]
    rfl
  | some n =>
    obtain ⟨hmem, hmax⟩ := Newest.newest_spec hn
    rw [Option.bind_some]
    cases hdel : n.isDelete with
    | false =>
      -- a newest `set` is kept wherever it stands
      have hkept : kept (onKey (l.filterMap ofOp) key) = some n :=
        kept_eq_some ((mem_onKey_perm h).mpr hmem) hdel
          (fun w hw => hmax w ((mem_onKey_perm h).mp hw))
          (fun w hw => onKey_unique hts ((mem_onKey_perm h).mp hw) hmem)
      rw [reading, hkept, Option.bind_some]
    | true =>
      -- a newest `remove` may come before every `set`; then the newest `set` must read as nothing
      obtain ⟨⟨r, hr, hrn⟩, hkey⟩ := mem_onKey.mp hmem
      obtain ⟨hrkey, -, hrt, -⟩ := ofOp_eq_some.mp hrn
      have hremove : r.op = .remove := by simpa [isDelete_ofOp hrn] using hdel
      have hnewest : NewestOn ops r := by
        refine ⟨hr, fun o ho hok => ?_⟩
        obtain ⟨w, hw⟩ := (hops o ho).exists_write
        obtain ⟨hwkey, -, hwt, -⟩ := ofOp_eq_some.mp hw
        have hwk : w.key = key := by
          rw [hok, hrkey, hkey] at hwkey
          exact (Option.some.inj hwkey).symm
        rw [hwt, hrt]
        exact hmax w (mem_onKey.mpr ⟨⟨o, ho, hw⟩, hwk⟩)
      rw [outcome_of_isDelete hdel]
      refine reading_eq_none fun s hs hset hsmax => ?_
      obtain ⟨⟨o, ho, hos⟩, hsk⟩ := mem_onKey.mp hs
      obtain ⟨hokey, hone, hot, -⟩ := ofOp_eq_some.mp hos
      obtain ⟨hoset, hout⟩ := op_eq_set hos hset
      have honewest : NewestSetOn ops o := by
        refine ⟨h.mem_iff.mp ho, hoset, fun o' ho' ho'set ho'key => ?_⟩
        have hw' : ofOp o' = some ⟨s.key, o'.timestamp, .set o'.value⟩ :=
          ofOp_eq_some.mpr ⟨ho'key.trans hokey, hone, rfl, Or.inl ⟨ho'set, rfl⟩⟩
        rw [hot]
        exact hsmax _ (mem_onKey.mpr ⟨⟨o', h.mem_iff.mpr ho', hw'⟩, hsk⟩) rfl
      rw [hout]
      exact hcond r o hnewest hremove honewest (by rw [hokey, hrkey, hsk, hkey])

/-- The two extreme orders: with all `remove`s first a key reads as its newest `set`, with all
`remove`s last it reads as its newest `remove`. -/
theorem reading_removes_first_last (hops : ∀ o ∈ ops, IsMapOp o)
    (hts : ∀ o ∈ ops, ∀ o' ∈ ops, o.key = o'.key → o.timestamp = o'.timestamp → o = o')
    {r s : CrdtOperation V} (hr : NewestOn ops r) (hremove : r.op = .remove)
    (hs : NewestSetOn ops s) (hkey : s.key = r.key) {key : String} (hrkey : r.key = some key) :
    let removes := ops.filter (·.op = .remove)
    let sets := ops.filter (¬ ·.op = .remove)
    reading (onKey ((removes ++ sets).filterMap ofOp) key) = s.value ∧
      reading (onKey ((sets ++ removes).filterMap ofOp) key) = none := by
  intro removes sets
  obtain ⟨wr, hwr⟩ := (hops r hr.1).exists_write
  obtain ⟨ws, hws⟩ := (hops s hs.1).exists_write
  obtain ⟨hwrkey, -, hwrt, -⟩ := ofOp_eq_some.mp hwr
  obtain ⟨hwskey, -, hwst, -⟩ := ofOp_eq_some.mp hws
  have hrk : wr.key = key := Option.some.inj (hwrkey.symm.trans hrkey)
  have hsk : ws.key = key := Option.some.inj (hwskey.symm.trans (hkey.trans hrkey))
  have hsdel : ws.isDelete = false := by simp [isDelete_ofOp hws, hs.2.1]
  -- the writes of the key split into those of the `remove`s and those of the `set`s
  set D := onKey (removes.filterMap ofOp) key with hD
  set S := onKey (sets.filterMap ofOp) key with hS
  have hsubD : ∀ d ∈ D, d ∈ onKey (ops.filterMap ofOp) key ∧ d.isDelete = true := by
    intro d hd
    obtain ⟨⟨o, ho, hod⟩, hk⟩ := mem_onKey.mp hd
    obtain ⟨hmem, hop⟩ := List.mem_filter.mp ho
    exact ⟨mem_onKey.mpr ⟨⟨o, hmem, hod⟩, hk⟩, by rw [isDelete_ofOp hod]; exact hop⟩
  have hsubS : ∀ w ∈ S, w ∈ onKey (ops.filterMap ofOp) key ∧ w.isDelete = false := by
    intro w hw
    obtain ⟨⟨o, ho, how⟩, hk⟩ := mem_onKey.mp hw
    obtain ⟨hmem, hop⟩ := List.mem_filter.mp ho
    exact ⟨mem_onKey.mpr ⟨⟨o, hmem, how⟩, hk⟩, by simpa [isDelete_ofOp how] using hop⟩
  have hrD : wr ∈ D :=
    mem_onKey.mpr ⟨⟨r, List.mem_filter.mpr ⟨hr.1, by simp [hremove]⟩, hwr⟩, hrk⟩
  have hsS : ws ∈ S :=
    mem_onKey.mpr ⟨⟨s, List.mem_filter.mpr ⟨hs.1, by simp [hs.2.1]⟩, hws⟩, hsk⟩
  have hsmax : ∀ w ∈ S, w.timestamp ≤ ws.timestamp := by
    intro w hw
    obtain ⟨⟨o, ho, how⟩, hk⟩ := mem_onKey.mp hw
    obtain ⟨hok, -, hot, -⟩ := ofOp_eq_some.mp how
    rw [← hot, ← hwst]
    exact hs.2.2 o (List.mem_filter.mp ho).1 (op_eq_set how (hsubS w hw).2).1
      (by rw [hok, hwskey, hk, hsk])
  have hrmax : ∀ w ∈ S ++ D, w.timestamp ≤ wr.timestamp := by
    intro w hw
    obtain ⟨⟨o, ho, how⟩, hk⟩ := mem_onKey.mp
      ((List.mem_append.mp hw).elim (fun h => (hsubS w h).1) fun h => (hsubD w h).1)
    obtain ⟨hok, -, hot, -⟩ := ofOp_eq_some.mp how
    rw [← hot, ← hwrt]
    exact hr.2 o ho (by rw [hok, hwrkey, hk, hrk])
  have happ : ∀ l l' : List (CrdtOperation V), onKey ((l ++ l').filterMap ofOp) key =
      onKey (l.filterMap ofOp) key ++ onKey (l'.filterMap ofOp) key := by
    intro l l'
    rw [List.filterMap_append, onKey, List.filter_append]
    rfl
  constructor
  · rw [happ, reading_deletes_append (fun d hd => (hsubD d hd).2) hsS hsdel hsmax
      fun w hw ht => onKey_unique hts (hsubS w hw).1 (hsubS ws hsS).1 ht]
    exact (op_eq_set hws hsdel).2
  · rw [happ, reading_append_deletes (fun w hw => (hsubS w hw).2) (List.ne_nil_of_mem hsS) hrD
      (hsubD wr hrD).2 hrmax fun w hw ht => ?_]
    exact onKey_unique hts
      ((List.mem_append.mp hw).elim (fun h => (hsubS w h).1) fun h => (hsubD w h).1)
      (hsubD wr hrD).1 ht

end Order

/-- Applied to a fresh map, the operations leave the same record in every order exactly when no key
has a `remove` as its newest operation while its newest `set` carries a value. -/
theorem apply_order_independent_iff (nodeId nodeId' : String) (ops : List (CrdtOperation V))
    (hops : ∀ o ∈ ops, IsMapOp o)
    (hts : ∀ o ∈ ops, ∀ o' ∈ ops, o.key = o'.key → o.timestamp = o'.timestamp → o = o') :
    (∀ l l' : List (CrdtOperation V), l.Perm ops → l'.Perm ops → ∀ key,
      ((LWWMap.new nodeId).applyAll l).value.get key =
        ((LWWMap.new nodeId').applyAll l').value.get key) ↔
    ∀ r s, NewestOn ops r → r.op = .remove → NewestSetOn ops s → s.key = r.key →
      s.value = none := by
  simp only [LWWMap.get_value_applyAll]
  constructor
  · intro hall r s hr hremove hs hkey
    obtain ⟨-, key, hrkey, -⟩ := hops r hr.1
    obtain ⟨hfirst, hlast⟩ := reading_removes_first_last hops hts hr hremove hs hkey hrkey
    have hperm := List.filter_append_perm (fun o : CrdtOperation V => decide (o.op = .remove)) ops
    rw [← hfirst, ← hlast]
    refine hall _ _ ?_ ?_ key
    · simpa using hperm
    · simpa using List.perm_append_comm.trans hperm
  · intro hcond l l' hl hl' key
    rw [reading_perm hops hts hcond hl, reading_perm hops hts hcond hl']

/-- Two `set`s of one key and a `remove` of another leave the same record in each of their six
orders. -/
theorem sets_and_foreign_remove_commute :
    let ops : List (CrdtOperation ℕ) :=
      [⟨.lwwMap, "n1", 1, .set, some "a", some 10⟩, ⟨.lwwMap, "n2", 2, .set, some "a", some 20⟩,
        ⟨.lwwMap, "n1", 3, .remove, some "b", none⟩]
    ∀ l l' : List (CrdtOperation ℕ), l.Perm ops → l'.Perm ops → ∀ key,
      ((LWWMap.new "n1").applyAll l).value.get key =
        ((LWWMap.new "n2").applyAll l').value.get key := by
  intro ops
  refine (apply_order_independent_iff "n1" "n2" ops ?_ ?_).mpr ?_
  · simp [ops, IsMapOp]
  · decide
  · rintro r s ⟨hr, -⟩ hremove ⟨hs, hset, -⟩ hkey
    simp only [ops, List.mem_cons, List.not_mem_nil, or_false] at hr hs
    rcases hr with rfl | rfl | rfl <;> rcases hs with rfl | rfl | rfl <;> simp_all

/-- A `remove` that overtakes the older `set` of its key is lost: the two orders of two operations
with different timestamps leave different records. -/
theorem remove_before_set_is_lost :
    let ops : List (CrdtOperation ℕ) :=
      [⟨.lwwMap, "n1", 1, .set, some "a", some 10⟩, ⟨.lwwMap, "n1", 2, .remove, some "a", none⟩]
    (∀ o ∈ ops, IsMapOp o) ∧
      (∀ o ∈ ops, ∀ o' ∈ ops, o.key = o'.key → o.timestamp = o'.timestamp → o = o') ∧
      ((LWWMap.new "n1").applyAll ops).value.get "a" = none ∧
      ((LWWMap.new "n1").applyAll ops.reverse).value.get "a" = some 10 := by
  intro ops
  refine ⟨?_, by decide, by decide, by decide⟩
  simp [ops, IsMapOp]

end Datasole
