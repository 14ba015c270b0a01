/-
# Values survive the wire

Every value that is written as JSON is read back from it, provided that its
numbers are in the range of their fields (`InRange`). What is written is plain, so
its text can be printed and read (`Json.Carries`). A composed value is carried if
its parts are.

Key definitions: `Json.Carries`, `Prepared.InRange`, `Snapshot.InRange`.
Key theorems: `Json.fieldValues?_fields`, `Json.carries_fields`, `Prepared.InRange.carried`,
`Snapshot.InRange.carried`.
-/
import TwoPhase.Proofs.Encoding
import TwoPhase.Proofs.Printing
import TwoPhase.Wire.Values

namespace TwoPhase

namespace Json

variable {α : Type} {read : Json → Option α} {f : α → Json}

/-- A value that is written as `j` is read back with `read`, and `j` is read back
from its text. -/
structure Carries (read : Json → Option α) (j : Json) (a : α) : Prop where
  plain : j.Plain
  read : read j = some a

/-! ### Single values -/

theorem natBelow?_nat {limit n : Nat} (h : n < limit) : natBelow? limit (.nat n) = some n := by
  simp [natBelow?, nat, h]

theorem plain_nat {n : Nat} (h : n < 2 ^ 64) : (Json.nat n).Plain := h

theorem carries_nat32 {n : Nat} (h : n < 2 ^ 32) : Carries nat32? (.nat n) n :=
  ⟨plain_nat (by omega), natBelow?_nat (by rwa [Nat.one_shiftLeft])⟩

theorem carries_nat64 {n : Nat} (h : n < 2 ^ 64) : Carries nat64? (.nat n) n :=
  ⟨plain_nat h, natBelow?_nat (by rwa [Nat.one_shiftLeft])⟩

theorem carries_byte (b : UInt8) : Carries byte? (.nat b.toNat) b := by
  have hb : b.toNat < 2 ^ 8 := b.toNat_lt
  refine ⟨plain_nat (by omega), ?_⟩
  rw [byte?, natBelow?_nat (by rwa [Nat.one_shiftLeft]), Option.map_some, UInt8.ofNat_toNat]

theorem carries_int64 {n : Int} (h : IsSigned64 n) : Carries int64? (.integer n) n := by
  obtain ⟨low, high⟩ := h
  refine ⟨show n.natAbs < 2 ^ 64 by omega, ?_⟩
  rw [int64?, intBelow?, if_pos]
  rw [Nat.one_shiftLeft]
  exact ⟨by omega, by omega⟩

/-- A number in the range of 32 bits with a sign. -/
def IsSigned32 (n : Int) : Prop := -2 ^ 31 ≤ n ∧ n < 2 ^ 31

theorem carries_int32 {n : Int} (h : IsSigned32 n) : Carries int32? (.integer n) n := by
  obtain ⟨low, high⟩ := h
  refine ⟨show n.natAbs < 2 ^ 64 by omega, ?_⟩
  rw [int32?, intBelow?, if_pos]
  rw [Nat.one_shiftLeft]
  exact ⟨by omega, by omega⟩

theorem carries_bool (b : Bool) : Carries bool? (.bool b) b := ⟨trivial, rfl⟩

theorem carries_text (s : String) : Carries text? (.text s) s := ⟨rfl, rfl⟩

theorem carries_named [Named α] (a : α) : Carries named? (Named.toJson a) a := ⟨rfl, Named.ofName?_name a⟩

theorem carries_list : ∀ {as : List α}, (∀ a ∈ as, Carries read (f a) a) → Carries (list? read) (.list f as) as
  | [], _ => ⟨trivial, rfl⟩
  | a :: as, h => by
    have ha := h a List.mem_cons_self
    have has := carries_list fun b hb => h b (List.mem_cons_of_mem a hb)
    have hread : (as.map f).mapM read = some as := has.read
    refine ⟨⟨ha.plain, has.plain⟩, ?_⟩
    show ((a :: as).map f).mapM read = some (a :: as)
    rw [List.map_cons, List.mapM_cons, ha.read, hread]
    rfl

/-- What may be missing is read back, if nothing that is there is written as `null`. -/
theorem carries_nullable {a : Option α} (h : ∀ b ∈ a, Carries read (f b) b) (there : ∀ b, f b ≠ .null) :
    Carries (fun j => optional? read (some j)) (.nullable f a) a := by
  cases a with
  | none => exact ⟨trivial, rfl⟩
  | some b =>
    obtain ⟨plain, hread⟩ := h b rfl
    refine ⟨plain, ?_⟩
    show nullable? read (f b) = some (some b)
    rw [nullable?, hread]
    · rfl
    · exact there b

@[simp] theorem withDefault?_some (default : α) (read : Json → Option α) (j : Json) :
    withDefault? default read (some j) = read j := by
  rw [withDefault?]

/-! ### Structures -/

theorem plain_fields : ∀ {entries : List (String × Json)}, (∀ e ∈ entries, e.2.Plain) → (fields entries).Plain
  | [], _ => trivial
  | e :: _, h =>
    ⟨rfl, h e List.mem_cons_self, plain_fields fun e' he' => h e' (List.mem_cons_of_mem e he')⟩

theorem countKey_fields (name : String) (entries : List (String × Json)) :
    countKey name (entries.map fun e => (some e.1, e.2)) = (entries.map (·.1)).count name := by
  rw [countKey, List.count, List.countP_map, List.countP_map]
  refine List.countP_congr fun e _ => ?_
  simp

theorem lookup?_fields : ∀ {entries : List (String × Json)}, (entries.map (·.1)).Nodup →
    entries.map (fun e => lookup? e.1 (entries.map fun e => (some e.1, e.2))) = entries.map fun e => some e.2
  | [], _ => rfl
  | e :: es, h => by
    obtain ⟨hfresh, hdistinct⟩ := List.nodup_cons.1 h
    have hlater : es.map (fun e' => lookup? e'.1 ((e :: es).map fun e => (some e.1, e.2))) =
        es.map fun e' => lookup? e'.1 (es.map fun e => (some e.1, e.2)) := by
      refine List.map_congr_left fun e' he' => ?_
      have hne : e.1 ≠ e'.1 := fun he => hfresh (List.mem_map.2 ⟨e', he', he.symm⟩)
      rw [List.map_cons, lookup?, if_neg (by simpa using hne)]
    rw [List.map_cons, hlater, lookup?_fields hdistinct]
    simp [lookup?]

/-- The values of all fields are found, if no two fields have one name. -/
theorem fieldValues?_fields {entries : List (String × Json)} (distinct : (entries.map (·.1)).Nodup) (spare : Nat) :
    fieldValues? (entries.map (·.1)) spare (.fields entries) = some (entries.map fun e => some e.2) := by
  have hkeys : (entries.map fun e => (some e.1, e.2)).all (·.1.isSome) = true := by simp
  have honce : (entries.map (·.1)).all (fun n => countKey n (entries.map fun e => (some e.1, e.2)) ≤ 1) = true := by
    refine List.all_eq_true.2 fun n _ => ?_
    rw [countKey_fields]
    simpa using List.nodup_iff_count_le_one.1 distinct n
  rw [fields, fieldValues?, hkeys, honce, List.map_map]
  exact congrArg some (lookup?_fields distinct)

/-- A structure is carried if all its fields are, and are taken up again. -/
theorem carries_fields {entries : List (String × Json)} {a : α} (names : List String) (spare : Nat)
    (own : entries.map (·.1) = names) (distinct : names.Nodup) (plain : ∀ e ∈ entries, e.2.Plain)
    (taken : ∀ j, fieldValues? names spare j = some (entries.map fun e => some e.2) → read j = some a) :
    Carries read (.fields entries) a := by
  subst own
  exact ⟨plain_fields plain, taken _ (fieldValues?_fields distinct spare)⟩

end Json

open Json

structure Handle.InRange (p : Handle) : Prop where
  pid : p.pid < 2 ^ 32
  queue : p.queue < 2 ^ 64

theorem Handle.InRange.carried {p : Handle} (h : p.InRange) : Carries Handle.ofJson? p.toJson p := by
  have pid := carries_nat32 h.pid
  have queue := carries_nat64 h.queue
  refine carries_fields ["pid", "queue"] 0 rfl (by decide) (by simp [pid.plain, queue.plain]) fun j hj => ?_
  rw [Handle.ofJson?, hj]
  simp [pid.read, queue.read]

theorem Bytes.carried (bytes : Bytes) : Carries Bytes.ofJson? (Bytes.toJson bytes) bytes :=
  carries_list fun b _ => carries_byte b

theorem Gtrid.carried (g : Gtrid) : Carries Gtrid.ofJson? g.toJson g := by
  have bytes := Bytes.carried g.bytes
  exact ⟨bytes.plain, by rw [Gtrid.ofJson?, Gtrid.toJson, bytes.read, Option.map_some]⟩

structure Trid.InRange (t : Trid) : Prop where
  format : IsSigned64 t.format

theorem Trid.InRange.carried {t : Trid} (h : t.InRange) : Carries Trid.ofJson? t.toJson t := by
  have format := carries_int64 h.format
  have gtrid := t.gtrid.carried
  have bqual := Bytes.carried t.bqual
  refine carries_fields ["format", "gtrid", "bqual"] 0 rfl (by decide)
    (by simp [format.plain, gtrid.plain, bqual.plain]) fun j hj => ?_
  rw [Trid.ofJson?, hj]
  simp [format.read, gtrid.read, bqual.read]

theorem ResourceId.carried_list {ids : List ResourceId} (h : ∀ id ∈ ids, IsSigned64 id) :
    Carries ResourceId.listOfJson? (.list ResourceId.toJson ids) ids :=
  carries_list fun id hid => carries_int64 (h id hid)

structure Timing.InRange (t : Timing) : Prop where
  start : t.start < 2 ^ 64
  finish : t.finish < 2 ^ 64

theorem Timing.InRange.carried {t : Timing} (h : t.InRange) : Carries Timing.ofJson? t.toJson t := by
  have start := carries_nat64 h.start
  have finish := carries_nat64 h.finish
  refine carries_fields ["start", "end"] 0 rfl (by decide) (by simp [start.plain, finish.plain]) fun j hj => ?_
  rw [Timing.ofJson?, hj]
  simp [start.read, finish.read]

/-! ### Metrics -/

structure Statistics.InRange (s : Statistics) : Prop where
  min : s.min < 2 ^ 64
  max : s.max < 2 ^ 64
  total : s.total < 2 ^ 64
  invoked : s.invoked < 2 ^ 64

theorem Statistics.InRange.carried {s : Statistics} (h : s.InRange) : Carries Statistics.ofJson? s.toJson s := by
  have min := carries_nat64 h.min
  have max := carries_nat64 h.max
  have total := carries_nat64 h.total
  have invoked := carries_nat64 h.invoked
  refine carries_fields ["min", "max", "total", "invoked"] 0 rfl (by decide)
    (by simp [min.plain, max.plain, total.plain, invoked.plain]) fun j hj => ?_
  rw [Statistics.ofJson?, hj]
  simp [min.read, max.read, total.read, invoked.read]

structure Metrics.InRange (m : Metrics) : Prop where
  resource : m.resource.InRange
  roundtrip : m.roundtrip.InRange

theorem Metrics.InRange.carried {m : Metrics} (h : m.InRange) : Carries Metrics.ofJson? m.toJson m := by
  have resource := h.resource.carried
  have roundtrip := h.roundtrip.carried
  refine carries_fields ["resource", "roundtrip"] 0 rfl (by decide) (by simp [resource.plain, roundtrip.plain])
    fun j hj => ?_
  rw [Metrics.ofJson?, hj]
  simp [resource.read, roundtrip.read]

/-! ### Records -/

structure External.InRange (e : External) : Prop where
  process : e.process.InRange
  id : IsSigned64 e.id

theorem External.InRange.carried {e : External} (h : e.InRange) : Carries External.ofJson? e.toJson e := by
  have process := h.process.carried
  have id := carries_int64 h.id
  refine carries_fields ["process", "id"] 0 rfl (by decide) (by simp [process.plain, id.plain]) fun j hj => ?_
  rw [External.ofJson?, hj]
  simp [process.read, id.read]

structure PreparedBranch.InRange (b : PreparedBranch) : Prop where
  trid : b.trid.InRange
  resources : ∀ id ∈ b.resources, IsSigned64 id

theorem PreparedBranch.InRange.carried {b : PreparedBranch} (h : b.InRange) :
    Carries PreparedBranch.ofJson? b.toJson b := by
  have trid := h.trid.carried
  have resources := ResourceId.carried_list h.resources
  refine carries_fields ["trid", "resources"] 0 rfl (by decide) (by simp [trid.plain, resources.plain]) fun j hj => ?_
  rw [PreparedBranch.ofJson?, hj]
  simp [trid.read, resources.read]

structure Prepared.InRange (p : Prepared) : Prop where
  trid : p.trid.InRange
  owner : ∀ pid ∈ p.owner, pid < 2 ^ 32
  branches : ∀ b ∈ p.branches, b.InRange
  started : p.started < 2 ^ 64

theorem Prepared.InRange.carried {p : Prepared} (h : p.InRange) : Carries Prepared.ofJson? p.toJson p := by
  have global := p.global.carried
  have trid := h.trid.carried
  have owner := carries_nullable (fun pid hpid => carries_nat32 (h.owner pid hpid)) (by simp [nat])
  have branches := carries_list fun b hb => (h.branches b hb).carried
  have started := carries_nat64 h.started
  refine carries_fields ["global", "trid", "owner", "branches", "started"] 0 rfl (by decide)
    (by simp [global.plain, trid.plain, owner.plain, branches.plain, started.plain]) fun j hj => ?_
  rw [Prepared.ofJson?, hj]
  simp [global.read, trid.read, owner.read, branches.read, started.read]

structure JournalStatistics.InRange (s : JournalStatistics) : Prop where
  prepare : s.prepare < 2 ^ 64
  remove : s.remove < 2 ^ 64
  writes : s.writes < 2 ^ 64

theorem JournalStatistics.InRange.carried {s : JournalStatistics} (h : s.InRange) :
    Carries JournalStatistics.ofJson? s.toJson s := by
  have prepare := carries_nat64 h.prepare
  have remove := carries_nat64 h.remove
  have writes := carries_nat64 h.writes
  refine carries_fields ["prepare", "remove", "writes"] 0 rfl (by decide)
    (by simp [prepare.plain, remove.plain, writes.plain]) fun j hj => ?_
  rw [JournalStatistics.ofJson?, hj]
  simp [prepare.read, remove.read, writes.read]

/-! ### Snapshots -/

structure BranchView.InRange (b : BranchView) : Prop where
  trid : b.trid.InRange
  resources : ∀ id ∈ b.resources, IsSigned64 id

theorem BranchView.InRange.carried {b : BranchView} (h : b.InRange) : Carries BranchView.ofJson? b.toJson b := by
  have trid := h.trid.carried
  have resources := ResourceId.carried_list h.resources
  refine carries_fields ["trid", "resources"] 0 rfl (by decide) (by simp [trid.plain, resources.plain]) fun j hj => ?_
  rw [BranchView.ofJson?, hj]
  simp [trid.read, resources.read]

structure TransactionView.InRange (t : TransactionView) : Prop where
  trid : t.trid.InRange
  owner : ∀ p ∈ t.owner, p.InRange
  branches : ∀ b ∈ t.branches, b.InRange
  started : t.started < 2 ^ 64

theorem TransactionView.InRange.carried {t : TransactionView} (h : t.InRange) :
    Carries TransactionView.ofJson? t.toJson t := by
  have trid := h.trid.carried
  have owner := carries_nullable (fun p hp => (h.owner p hp).carried) (by simp [Handle.toJson, fields])
  have stage := carries_named t.stage
  have prepared := carries_bool t.prepared
  have branches := carries_list fun b hb => (h.branches b hb).carried
  have started := carries_nat64 h.started
  refine carries_fields ["trid", "owner", "stage", "prepared", "branches", "started"] 0 rfl (by decide)
    (by simp [trid.plain, owner.plain, stage.plain, prepared.plain, branches.plain, started.plain]) fun j hj => ?_
  rw [TransactionView.ofJson?, hj]
  simp [trid.read, owner.read, stage.read, prepared.read, branches.read, started.read]

structure InstanceView.InRange (i : InstanceView) : Prop where
  process : i.process.InRange
  inFlight : ∀ c ∈ i.inFlight, c < 2 ^ 64
  metrics : i.metrics.InRange

theorem InstanceView.InRange.carried {i : InstanceView} (h : i.InRange) : Carries InstanceView.ofJson? i.toJson i := by
  have process := h.process.carried
  have state := carries_named i.state
  have inFlight := carries_nullable (fun c hc => carries_nat64 (h.inFlight c hc)) (by simp [nat])
  have metrics := h.metrics.carried
  refine carries_fields ["process", "state", "in_flight", "metrics"] 0 rfl (by decide)
    (by simp [process.plain, state.plain, inFlight.plain, metrics.plain]) fun j hj => ?_
  rw [InstanceView.ofJson?, hj]
  simp [process.read, state.read, inFlight.read, metrics.read]

structure ResourceView.InRange (r : ResourceView) : Prop where
  id : IsSigned64 r.id
  concurrency : r.concurrency < 2 ^ 64
  instances : ∀ i ∈ r.instances, i.InRange
  metrics : r.metrics.InRange
  pending : r.pending < 2 ^ 64

theorem ResourceView.InRange.carried {r : ResourceView} (h : r.InRange) : Carries ResourceView.ofJson? r.toJson r := by
  have id := carries_int64 h.id
  have key := carries_text r.key
  have name := carries_text r.name
  have openinfo := carries_text r.openinfo
  have closeinfo := carries_text r.closeinfo
  have concurrency := carries_nat64 h.concurrency
  have instances := carries_list fun i hi => (h.instances i hi).carried
  have metrics := h.metrics.carried
  have pending := carries_nat64 h.pending
  refine carries_fields ["id", "key", "name", "openinfo", "closeinfo", "concurrency", "instances", "metrics", "pending"]
    0 rfl (by decide) (by simp [id.plain, key.plain, name.plain, openinfo.plain, closeinfo.plain, concurrency.plain,
      instances.plain, metrics.plain, pending.plain]) fun j hj => ?_
  rw [ResourceView.ofJson?, hj]
  simp [id.read, key.read, name.read, openinfo.read, closeinfo.read, concurrency.read, instances.read, metrics.read,
    pending.read]

structure Snapshot.InRange (s : Snapshot) : Prop where
  transactions : ∀ t ∈ s.transactions, t.InRange
  resources : ∀ r ∈ s.resources, r.InRange
  externals : ∀ e ∈ s.externals, e.InRange
  persistentReplies : s.persistentReplies < 2 ^ 64
  persistentRequests : s.persistentRequests < 2 ^ 64
  coordinating : s.coordinating < 2 ^ 64
  journal : s.journal.InRange
  inDoubt : ∀ p ∈ s.inDoubt, p.InRange

theorem Snapshot.InRange.carried {s : Snapshot} (h : s.InRange) : Carries Snapshot.ofJson? s.toJson s := by
  have transactions := carries_list fun t ht => (h.transactions t ht).carried
  have resources := carries_list fun r hr => (h.resources r hr).carried
  have externals := carries_list fun e he => (h.externals e he).carried
  have replies := carries_nat64 h.persistentReplies
  have requests := carries_nat64 h.persistentRequests
  have coordinating := carries_nat64 h.coordinating
  have journal := h.journal.carried
  have inDoubt := carries_list fun p hp => (h.inDoubt p hp).carried
  refine carries_fields ["transactions", "resources", "externals", "persistent_replies", "persistent_requests",
    "coordinating", "log", "in_doubt"] 0 rfl (by decide) (by simp [transactions.plain, resources.plain,
      externals.plain, replies.plain, requests.plain, coordinating.plain, journal.plain, inDoubt.plain]) fun j hj => ?_
  rw [Snapshot.ofJson?, hj]
  simp [transactions.read, resources.read, externals.read, replies.read, requests.read, coordinating.read,
    journal.read, inDoubt.read]

end TwoPhase
