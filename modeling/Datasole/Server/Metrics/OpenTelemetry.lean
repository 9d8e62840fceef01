import Datasole.Common.JsMap
import Mathlib.Algebra.Order.BigOperators.Group.List
import Mathlib.Algebra.Group.Int.Defs
import Mathlib.Algebra.Order.Ring.Int

/-!
# Export of the metrics to OpenTelemetry

A snapshot holds running totals. `OpenTelemetryExporter.export` keeps an up-down counter for each
numeric key and adds the number of every snapshot to it. The value of an up-down counter is the sum
of what was added to it.

`exports_eq` says what the counters have received after any sequence of exports: the counter of a
key has received every number the key ever had. So the counter reads as the last snapshot's number
exactly if the earlier numbers add nothing to it (`export_tracks_iff`). For totals that are never
negative, as `MetricsCollector` counts them, that is the case only while the earlier totals were all
zero.
-/

namespace Datasole

/-- A property of a snapshot: a number, or a value of another type, which the exporter skips. -/
inductive MetricValue (N : Type*) where
  | number (n : N)
  | other
  deriving DecidableEq

/-- The own properties of a snapshot, as `Object.entries` lists them. -/
abbrev MetricsSnapshot (N : Type*) := JsMap String (MetricValue N)

variable {N : Type*}

/-- The number under a key. -/
def MetricsSnapshot.number (snapshot : MetricsSnapshot N) (key : String) : Option N :=
  (snapshot.get key).bind fun
    | .number n => some n
    | .other => none

/-- The number under a key is what the snapshot has there, if that is a number. -/
theorem MetricsSnapshot.number_eq_some {snapshot : MetricsSnapshot N} {key : String} {n : N} :
    snapshot.number key = some n ↔ snapshot.get key = some (.number n) := by
  rw [number, Option.bind_eq_some_iff]
  constructor
  · rintro ⟨_ | _, hget, hn⟩
    · cases hn
      exact hget
    · cases hn
  · exact fun hget => ⟨_, hget, rfl⟩

/-! ## The collector -/

/-- The counters of the collector. -/
inductive MetricName where
  | connections | messagesIn | messagesOut | bytesIn | bytesOut | rpcCalls | rpcErrors | statePatches
  deriving DecidableEq

namespace MetricName

/-- The counters in the order of the object literal. -/
def all : List MetricName :=
  [connections, messagesIn, messagesOut, bytesIn, bytesOut, rpcCalls, rpcErrors, statePatches]

def key : MetricName → String
  | connections => "connections"
  | messagesIn => "messagesIn"
  | messagesOut => "messagesOut"
  | bytesIn => "bytesIn"
  | bytesOut => "bytesOut"
  | rpcCalls => "rpcCalls"
  | rpcErrors => "rpcErrors"
  | statePatches => "statePatches"

end MetricName

/-- `MetricsCollector`, with times in milliseconds. -/
structure MetricsCollector where
  startTime : ℤ
  counters : MetricName → ℤ

namespace MetricsCollector

/-- `new MetricsCollector()` at a time. -/
def new (now : ℤ) : MetricsCollector := ⟨now, fun _ => 0⟩

def increment (c : MetricsCollector) (counter : MetricName) (value : ℤ) : MetricsCollector :=
  { c with counters := Function.update c.counters counter (c.counters counter + value) }

def decrement (c : MetricsCollector) (counter : MetricName) (value : ℤ) : MetricsCollector :=
  { c with counters := Function.update c.counters counter (max 0 (c.counters counter - value)) }

def reset (c : MetricsCollector) : MetricsCollector := { c with counters := fun _ => 0 }

/-- The properties of the snapshot taken at a time. -/
def fields (c : MetricsCollector) (now : ℤ) : List (String × MetricValue ℤ) :=
  MetricName.all.map (fun name => (name.key, .number (c.counters name))) ++
    [("uptime", .number (now - c.startTime))]

theorem fields_keys (c : MetricsCollector) (now : ℤ) :
    (c.fields now).map Prod.fst = MetricName.all.map MetricName.key ++ ["uptime"] := rfl

def snapshot (c : MetricsCollector) (now : ℤ) : MetricsSnapshot ℤ :=
  ⟨c.fields now, by rw [fields_keys]; decide⟩

/-- A change of the collector by the server. -/
inductive Call where
  | increment (counter : MetricName) (value : ℕ)
  | decrement (counter : MetricName) (value : ℤ)
  | reset

def call (c : MetricsCollector) : Call → MetricsCollector
  | .increment counter value => c.increment counter value
  | .decrement counter value => c.decrement counter value
  | .reset => c.reset

/-- The snapshots taken, each at its time, between runs of calls. -/
def scrapes : MetricsCollector → List (List Call × ℤ) → List (MetricsSnapshot ℤ)
  | _, [] => []
  | c, (calls, now) :: rest =>
    let c := calls.foldl call c
    c.snapshot now :: c.scrapes rest

/-- No counter is negative. -/
def Nonneg (c : MetricsCollector) : Prop := ∀ name, 0 ≤ c.counters name

/-- No call makes a counter negative: a decrement stops at zero. -/
theorem Nonneg.call {c : MetricsCollector} (h : c.Nonneg) (a : Call) :
    (c.call a).Nonneg ∧ (c.call a).startTime = c.startTime := by
  cases a with
  | increment counter value =>
    refine ⟨fun name => ?_, rfl⟩
    change 0 ≤ Function.update c.counters counter (c.counters counter + value) name
    have hname := h name
    have hcounter := h counter
    rw [Function.update_apply]
    split <;> omega
  | decrement counter value =>
    refine ⟨fun name => ?_, rfl⟩
    change 0 ≤ Function.update c.counters counter (max 0 (c.counters counter - value)) name
    have hname := h name
    rw [Function.update_apply]
    split <;> omega
  | reset => exact ⟨fun _ => le_refl 0, rfl⟩

/-- Nor does a sequence of calls. -/
theorem Nonneg.calls {c : MetricsCollector} (h : c.Nonneg) (calls : List Call) :
    (calls.foldl MetricsCollector.call c).Nonneg ∧
      (calls.foldl MetricsCollector.call c).startTime = c.startTime := by
  induction calls generalizing c with
  | nil => exact ⟨h, rfl⟩
  | cons a calls ih =>
    obtain ⟨hnonneg, hstart⟩ := h.call a
    obtain ⟨hrest, hstart'⟩ := ih hnonneg
    exact ⟨hrest, hstart'.trans hstart⟩

/-- The numbers of a snapshot are not negative, on a clock that has not gone back. -/
theorem Nonneg.snapshot {c : MetricsCollector} (h : c.Nonneg) {now : ℤ} (hnow : c.startTime ≤ now)
    {key : String} {n : ℤ} (hn : (c.snapshot now).number key = some n) : 0 ≤ n := by
  have hmem : (key, MetricValue.number n) ∈ c.fields now :=
    JsMap.mem_entries.mpr (MetricsSnapshot.number_eq_some.mp hn)
  rcases List.mem_append.mp hmem with hmem | hmem
  · obtain ⟨name, -, heq⟩ := List.mem_map.mp hmem
    cases heq
    exact h name
  · cases List.mem_singleton.mp hmem
    omega

/-- So what is scraped after the start is never negative. -/
theorem Nonneg.scrapes {c : MetricsCollector} (h : c.Nonneg) {history : List (List Call × ℤ)}
    (hnow : ∀ entry ∈ history, c.startTime ≤ entry.2) :
    ∀ snapshot ∈ c.scrapes history, ∀ key n, snapshot.number key = some n → 0 ≤ n := by
  induction history generalizing c with
  | nil => simp [MetricsCollector.scrapes]
  | cons entry history ih =>
    obtain ⟨calls, now⟩ := entry
    obtain ⟨hnonneg, hstart⟩ := h.calls calls
    intro snapshot hmem key n hn
    rcases List.mem_cons.mp hmem with rfl | hmem
    · exact hnonneg.snapshot (hstart ▸ hnow _ List.mem_cons_self) hn
    · refine ih hnonneg (fun entry hentry => ?_) snapshot hmem key n hn
      exact hstart ▸ hnow entry (List.mem_cons_of_mem _ hentry)

end MetricsCollector

/-! ## The exporter -/

/-- An up-down counter of the meter, with the amounts added to it. -/
structure UpDownCounter (N : Type*) where
  name : String
  description : String
  amounts : List N
  deriving DecidableEq

namespace UpDownCounter

def add (counter : UpDownCounter N) (value : N) : UpDownCounter N :=
  { counter with amounts := counter.amounts ++ [value] }

/-- What the counter reads as: all amounts, added up in the order they came. -/
def value [Add N] [Zero N] (counter : UpDownCounter N) : N := counter.amounts.foldl (· + ·) 0

end UpDownCounter

/-- The exporter: `meter` is set by `initialize`, and each counter that it made is kept under its
key. -/
structure OpenTelemetryExporter (N : Type*) where
  meterName : String
  meter : Bool
  counters : JsMap String (UpDownCounter N)
  deriving DecidableEq

namespace OpenTelemetryExporter

/-- `new OpenTelemetryExporter(meterName)`. -/
def new (meterName : String) : OpenTelemetryExporter N := ⟨meterName, false, JsMap.empty⟩

/-- `initialize()`: the package `@opentelemetry/api` can be imported or not. -/
def initializeMeter (e : OpenTelemetryExporter N) (imported : Bool) :
    Except String (OpenTelemetryExporter N) :=
  if imported then .ok { e with meter := true }
  else .error ("OpenTelemetryExporter requires \"@opentelemetry/api\". " ++
    "Install it: npm install @opentelemetry/api")

/-- `meter.createUpDownCounter(name, { description })`. -/
def createUpDownCounter (name description : String) : UpDownCounter N := ⟨name, description, []⟩

/-- One turn of the loop of `export`. -/
def observe (counters : JsMap String (UpDownCounter N)) :
    String × MetricValue N → JsMap String (UpDownCounter N)
  | (_, .other) => counters
  | (key, .number value) =>
    let counter := (counters.get key).getD
      (createUpDownCounter ("datasole." ++ key) ("Datasole metric: " ++ key))
    counters.set key (counter.add value)

/-- `export(snapshot)`; `stringify` is `JSON.stringify`. -/
def exportSnapshot (stringify : MetricsSnapshot N → String) (e : OpenTelemetryExporter N)
    (snapshot : MetricsSnapshot N) : Except String (OpenTelemetryExporter N × String) :=
  if e.meter then
    .ok ({ e with counters := snapshot.entries.foldl observe e.counters }, stringify snapshot)
  else .error "OpenTelemetryExporter not initialized. Call initialize() first."

/-- A sequence of exports, each awaited. -/
def exports (stringify : MetricsSnapshot N → String) (e : OpenTelemetryExporter N)
    (snapshots : List (MetricsSnapshot N)) : Except String (OpenTelemetryExporter N) :=
  snapshots.foldlM (fun e snapshot => Prod.fst <$> e.exportSnapshot stringify snapshot) e

/-! ## What the counters receive -/

/-- The counter of a key that has received these amounts; there is none before the first. -/
def counterOf (key : String) : List N → Option (UpDownCounter N)
  | [] => none
  | amounts => some ⟨"datasole." ++ key, "Datasole metric: " ++ key, amounts⟩

/-- A counter is made for the first amount and receives every later one. -/
theorem counterOf_concat (key : String) (amounts : List N) (value : N) :
    some (((counterOf key amounts).getD
        (createUpDownCounter ("datasole." ++ key) ("Datasole metric: " ++ key))).add value) =
      counterOf key (amounts ++ [value]) := by
  cases amounts with
  | nil => rfl
  | cons a as => rfl

/-- The numbers that a list of properties has under a key. -/
def numbersIn (key : String) (entries : List (String × MetricValue N)) : List N :=
  entries.filterMap fun
    | (key', .number value) => if key = key' then some value else none
    | (_, .other) => none

/-- One turn of the loop adds to the counter of its own key only. -/
theorem get_observe {counters : JsMap String (UpDownCounter N)} (entry : String × MetricValue N)
    {key : String} {amounts : List N} (h : counters.get key = counterOf key amounts) :
    (observe counters entry).get key = counterOf key (amounts ++ numbersIn key [entry]) := by
  obtain ⟨key', value | _⟩ := entry
  · rw [observe, JsMap.get_set]
    by_cases hkey : key = key'
    · subst hkey
      rw [if_pos rfl, h, counterOf_concat]
      simp [numbersIn]
    · rw [if_neg hkey, h]
      simp [numbersIn, hkey]
  · simpa [observe, numbersIn] using h

/-- The loop adds to each counter the numbers under its key. -/
theorem get_foldl_observe {counters : JsMap String (UpDownCounter N)}
    (entries : List (String × MetricValue N)) {key : String} {amounts : List N}
    (h : counters.get key = counterOf key amounts) :
    (entries.foldl observe counters).get key = counterOf key (amounts ++ numbersIn key entries) := by
  induction entries generalizing counters amounts with
  | nil => simpa [numbersIn] using h
  | cons entry entries ih =>
    rw [List.foldl_cons, ih (get_observe entry h), List.append_assoc]
    congr 2
    exact (List.filterMap_append (l := [entry])).symm

/-- A key is listed once, so a snapshot adds at most one number to its counter. -/
theorem numbersIn_entries (snapshot : MetricsSnapshot N) (key : String) :
    numbersIn key snapshot.entries = (snapshot.number key).toList := by
  obtain ⟨entries, hnodup⟩ := snapshot
  change numbersIn key entries = ((entries.lookup key).bind _).toList
  induction entries with
  | nil => rfl
  | cons entry entries ih =>
    obtain ⟨hmem, hnd⟩ := List.nodup_cons.mp hnodup
    rw [JsMap.lookup_cons]
    by_cases hkey : key = entry.1
    · -- the rest of the list has nothing under this key
      have hrest : numbersIn key entries = [] := by
        rw [ih hnd, JsMap.lookup_eq_none (hkey ▸ hmem)]
        rfl
      obtain ⟨key', value | _⟩ := entry
      · simpa [numbersIn, hkey] using hrest
      · simpa [numbersIn, hkey] using hrest
    · rw [if_neg hkey, ← ih hnd]
      obtain ⟨key', value | _⟩ := entry
      · have hkey' : key ≠ key' := hkey
        simp [numbersIn, hkey']
      · simp [numbersIn]

/-- The numbers that a key had in a sequence of snapshots. -/
def numbersOf (key : String) (snapshots : List (MetricsSnapshot N)) : List N :=
  snapshots.filterMap (·.number key)

/-- The numbers of a key in a longer history. -/
theorem numbersOf_concat (key : String) (snapshots : List (MetricsSnapshot N))
    (last : MetricsSnapshot N) :
    numbersOf key (snapshots ++ [last]) = numbersOf key snapshots ++ (last.number key).toList := by
  rw [numbersOf, List.filterMap_append]
  cases h : last.number key <;> simp [numbersOf, h]

/-- After any exports, the counter of each key has received every number the key had. -/
theorem exports_from (stringify : MetricsSnapshot N → String) {e : OpenTelemetryExporter N}
    (hmeter : e.meter = true) {before : List (MetricsSnapshot N)}
    (h : ∀ key, e.counters.get key = counterOf key (numbersOf key before))
    (snapshots : List (MetricsSnapshot N)) :
    ∃ e', e.exports stringify snapshots = .ok e' ∧
      ∀ key, e'.counters.get key = counterOf key (numbersOf key (before ++ snapshots)) := by
  induction snapshots generalizing e before with
  | nil => exact ⟨e, rfl, by simpa using h⟩
  | cons snapshot snapshots ih =>
    have hexport : e.exportSnapshot stringify snapshot =
        .ok ({ e with counters := snapshot.entries.foldl observe e.counters },
          stringify snapshot) := by
      rw [exportSnapshot, if_pos hmeter]
    have hcounters (key : String) : (snapshot.entries.foldl observe e.counters).get key =
        counterOf key (numbersOf key (before ++ [snapshot])) := by
      rw [get_foldl_observe snapshot.entries (h key), numbersIn_entries, numbersOf_concat]
    let e₁ : OpenTelemetryExporter N :=
      { e with counters := snapshot.entries.foldl observe e.counters }
    obtain ⟨e', hrun, hget⟩ := ih (e := e₁) hmeter hcounters
    refine ⟨e', ?_, by simpa using hget⟩
    rw [exports, List.foldlM_cons, hexport]
    exact hrun

/-- From an initialized exporter without counters all exports go through, and each counter has
received every number of its key. -/
theorem exports_eq (stringify : MetricsSnapshot N → String) (meterName : String)
    (snapshots : List (MetricsSnapshot N)) :
    ∃ e', exports stringify ⟨meterName, true, JsMap.empty⟩ snapshots = .ok e' ∧
      ∀ key, e'.counters.get key = counterOf key (numbersOf key snapshots) :=
  @exports_from N stringify ⟨meterName, true, JsMap.empty⟩ rfl [] (fun _ => rfl) snapshots

section Tracking

variable [Add N] [Zero N]

/-- What a key's numbers in these snapshots add up to. -/
def total (key : String) (snapshots : List (MetricsSnapshot N)) : N :=
  (numbersOf key snapshots).foldl (· + ·) 0

/-- Every number of the snapshot is what the counter of its key reads as. -/
def Tracks (e : OpenTelemetryExporter N) (snapshot : MetricsSnapshot N) : Prop :=
  ∀ key n, snapshot.number key = some n → (e.counters.get key).map (·.value) = some n

/-- A further snapshot adds its number to the total. -/
theorem total_concat {key : String} {last : MetricsSnapshot N} {n : N}
    (h : last.number key = some n) (earlier : List (MetricsSnapshot N)) :
    total key (earlier ++ [last]) = total key earlier + n := by
  rw [total, numbersOf_concat, h, Option.toList_some, List.foldl_append]
  rfl

/-- A counter that has received numbers reads as their sum. -/
theorem value_counterOf {key : String} {snapshots : List (MetricsSnapshot N)}
    (h : numbersOf key snapshots ≠ []) :
    (counterOf key (numbersOf key snapshots)).map (·.value) = some (total key snapshots) := by
  unfold total
  cases hnumbers : numbersOf key snapshots with
  | nil => exact absurd hnumbers h
  | cons a as => rfl

/-- The counters read as the last snapshot exactly if, under each of its keys, the earlier numbers
add nothing to the last one. -/
theorem tracks_iff {stringify : MetricsSnapshot N → String} {meterName : String}
    {earlier : List (MetricsSnapshot N)} {last : MetricsSnapshot N} {e : OpenTelemetryExporter N}
    (hrun : exports stringify ⟨meterName, true, JsMap.empty⟩ (earlier ++ [last]) = .ok e) :
    e.Tracks last ↔ ∀ key n, last.number key = some n → total key earlier + n = n := by
  obtain ⟨e', hrun', hget⟩ := exports_eq stringify meterName (earlier ++ [last])
  obtain rfl : e' = e := Except.ok.inj (hrun'.symm.trans hrun)
  refine forall_congr' fun key => forall_congr' fun n => imp_congr_right fun hn => ?_
  have hnumbers : numbersOf key (earlier ++ [last]) ≠ [] := by simp [numbersOf_concat, hn]
  rw [hget key, value_counterOf hnumbers, total_concat hn, Option.some.injEq]

/-- Exporting any snapshots from a fresh initialised exporter succeeds, and its counters then read
as the last snapshot exactly if, under each of its keys, the earlier numbers add nothing to the
last. -/
theorem export_tracks_iff (stringify : MetricsSnapshot N → String) (meterName : String)
    (earlier : List (MetricsSnapshot N)) (last : MetricsSnapshot N) :
    ∃ e e' : OpenTelemetryExporter N, (new meterName).initializeMeter true = .ok e ∧
      e.exports stringify (earlier ++ [last]) = .ok e' ∧
      (e'.Tracks last ↔
        ∀ key n, last.number key = some n → total key earlier + n = n) := by
  obtain ⟨e', hrun, -⟩ := exports_eq stringify meterName (earlier ++ [last])
  exact ⟨_, e', rfl, hrun, tracks_iff hrun⟩

end Tracking

/-- Two exports of the same snapshot, with five connections: the counter then reads ten. -/
theorem second_export_doubles :
    let snapshot := ((MetricsCollector.new 0).increment .connections 5).snapshot 1000
    (((⟨"datasole", true, JsMap.empty⟩ : OpenTelemetryExporter ℤ).exports (fun _ => "")
        [snapshot, snapshot]).toOption.bind fun e => (e.counters.get "connections").map (·.value)) =
      some 10 ∧ snapshot.number "connections" = some 5 := by
  decide

/-- Totals that are not negative add up to zero only if each is zero. -/
theorem total_eq_zero_iff {key : String} {earlier : List (MetricsSnapshot ℤ)}
    (h : ∀ snapshot ∈ earlier, ∀ n, snapshot.number key = some n → 0 ≤ n) :
    total key earlier = 0 ↔ ∀ snapshot ∈ earlier, ∀ n, snapshot.number key = some n → n = 0 := by
  have hnonneg : ∀ n ∈ numbersOf key earlier, 0 ≤ n := by
    intro n hn
    obtain ⟨snapshot, hmem, hnumber⟩ := List.mem_filterMap.mp hn
    exact h snapshot hmem n hnumber
  rw [total, ← List.sum_eq_foldl]
  constructor
  · intro hsum snapshot hmem n hn
    have hmem' : n ∈ numbersOf key earlier := List.mem_filterMap.mpr ⟨snapshot, hmem, hn⟩
    exact List.all_zero_of_le_zero_le_of_sum_eq_zero hnonneg hsum hmem'
  · intro hzero
    refine List.sum_eq_zero fun n hn => ?_
    obtain ⟨snapshot, hmem, hnumber⟩ := List.mem_filterMap.mp hn
    exact hzero snapshot hmem n hnumber

/-- The exports of what a collector counts track its last snapshot exactly if each of its numbers
was zero in every snapshot before. -/
theorem scrapes_track_iff {stringify : MetricsSnapshot ℤ → String} {meterName : String} {start : ℤ}
    {history : List (List MetricsCollector.Call × ℤ)} (hnow : ∀ entry ∈ history, start ≤ entry.2)
    {earlier : List (MetricsSnapshot ℤ)} {last : MetricsSnapshot ℤ}
    (hscrapes : (MetricsCollector.new start).scrapes history = earlier ++ [last])
    {e : OpenTelemetryExporter ℤ}
    (hrun : exports stringify ⟨meterName, true, JsMap.empty⟩ (earlier ++ [last]) = .ok e) :
    e.Tracks last ↔ ∀ key n, last.number key = some n →
      ∀ snapshot ∈ earlier, ∀ m, snapshot.number key = some m → m = 0 := by
  have hnonneg (snapshot : MetricsSnapshot ℤ) (hmem : snapshot ∈ earlier) (key : String) (n : ℤ)
      (hn : snapshot.number key = some n) : 0 ≤ n := by
    have hmem' : snapshot ∈ (MetricsCollector.new start).scrapes history :=
      hscrapes ▸ List.mem_append_left _ hmem
    exact MetricsCollector.Nonneg.scrapes (fun _ => le_refl 0) hnow snapshot hmem' key n hn
  rw [tracks_iff hrun]
  refine forall_congr' fun key => forall_congr' fun n => imp_congr_right fun _ => ?_
  rw [add_eq_right, total_eq_zero_iff fun snapshot hmem n hn => hnonneg snapshot hmem key n hn]

end OpenTelemetryExporter

end Datasole
