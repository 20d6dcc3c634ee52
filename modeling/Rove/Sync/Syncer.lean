/-
The syncer (`sync/mod.rs`): snapshots of the control plane are fetched, cached
on disk and put into the engine, and a new address book is adopted together with
a recompiled snapshot.

What the network, the disk and the clock do is given with each operation. The
JSON reader and writer and the parsers of other crates are given with the node,
as is what a compilation finds that the program does not decide: in which order
maps are iterated, and which selectors are cached with a book.
-/
import Rove.Base.Run
import Rove.Model.Reference
import Rove.Model.Wire

namespace Rove.Sync

open Model
open AddrBook (Book SelectorCache)

def maxSnapshotBytes : Nat := 8 * 1024 * 1024

/-- `SyncOutcome`, without the time it took. -/
structure SyncOutcome where
  success : Bool
  updated : Bool
  alreadyRunning : Bool
  message : String
  version : BitVec 64

structure SyncHealth where
  lastAttemptUnixSecs : Option Nat := none
  lastSuccessUnixSecs : Option Nat := none
  failureSinceUnixSecs : Option Nat := none
  consecutiveFailures : Nat := 0

/-- A node: its configuration, the parsers it links, and what its `n`th
compilation finds. -/
structure Node where
  snapshotUrl : Str
  nodeId : Str
  parseIpNet : Str → Option IpNet
  parseDate : Str → Res NaiveDate
  readJson : List UInt8 → Res Json
  writeJson : RawSnapshot → Res (List UInt8)
  order : Nat → IterOrder
  selectors : Nat → (book : Book) → SelectorCache book

/-- The syncer with the engine's snapshot, the current address book, if the node
has one, and the cache file, if it exists. -/
structure Syncer where
  active : Snapshot := .empty
  lastRaw : Option RawSnapshot := none
  book : Option Book
  cacheFile : Option (List UInt8)
  health : SyncHealth := {}
  compiles : Nat := 0

/-- What a request to the control plane is answered. `broken` is the error that
ends the body early, if one does. -/
structure Response where
  status : Nat
  statusText : String
  contentLength : Option Nat
  chunks : List (List UInt8)
  broken : Option String

/-- The outcome of a request to each URL. -/
abbrev Remote := Str → Except String Response

/-- The loop of `read_limited_response`, with `body` read so far. -/
def readChunks (cap : Nat) (broken : Option String) : List (List UInt8) → List UInt8 → Res (List UInt8)
  | [], body =>
    match broken with
    | some e => throw e
    | none => pure body
  | chunk :: chunks, body =>
    if body.length + chunk.length > cap then
      throw s!"snapshot response is too large: {body.length + chunk.length} > {cap} bytes"
    else readChunks cap broken chunks (body ++ chunk)

def readLimitedResponse (resp : Response) (cap : Nat) : Res (List UInt8) := do
  match resp.contentLength with
  | some size => ensure (size ≤ cap) s!"snapshot response is too large: {size} > {cap} bytes"
  | none => pure ()
  readChunks cap resp.broken resp.chunks []

def Node.compileWithBook (node : Node) (n : Nat) (doc : RawSnapshot) (book : Option Book) : Res Snapshot :=
  (compileChecked node.parseIpNet node.parseDate (node.order n) doc node.nodeId
    (book.map fun b => ⟨b, node.selectors n b⟩)).map (·.1)

def Node.url (node : Node) (since : BitVec 64) : Str :=
  let separator := if '?' ∈ node.snapshotUrl then '&' else '?'
  node.snapshotUrl ++ separator :: "since=" ++ showNat since.toNat

def Node.fetch (node : Node) (remote : Remote) (since : BitVec 64) : Res (Option RawSnapshot) := do
  let resp ← remote (node.url since)
  if resp.status = 304 then pure none
  else if ¬(200 ≤ resp.status ∧ resp.status < 300) then throw s!"control-plane returned {resp.statusText}"
  else
    let body ← readLimitedResponse resp maxSnapshotBytes
    let doc ← decodeSnapshot node.readJson body
    if doc.version ≤ since then pure none else pure (some doc)

/-- `load_cache`; `stat` and `read` are the errors of looking at the file and of
reading it. -/
def Node.readCache (node : Node) (stat read : Option String) : Option (List UInt8) → Res (Option RawSnapshot)
  | none => pure none
  | some bytes => do
    match stat with
    | some e => throw e
    | none =>
      ensure (bytes.length ≤ maxSnapshotBytes)
        s!"snapshot cache is too large: {bytes.length} > {maxSnapshotBytes} bytes"
    match read with
    | some e => throw e
    | none => pure ()
    let doc ← decodeSnapshot node.readJson bytes
    pure (some doc)

/-- `save_cache`, with the file after it. The text is written to another file
that is then renamed, so that `disk`, the error of any step, leaves the file as
it was. -/
def Node.saveCache (node : Node) (doc : RawSnapshot) (disk : Option String) (file : Option (List UInt8)) :
    Option (List UInt8) × Res Unit :=
  match node.writeJson doc with
  | .error e => (file, .error e)
  | .ok bytes =>
    if bytes.length > maxSnapshotBytes then
      (file, .error s!"snapshot cache payload is too large: {bytes.length} > {maxSnapshotBytes} bytes")
    else
      match disk with
      | some e => (file, .error e)
      | none => (some bytes, .ok ())

namespace Syncer

def compileSnapshot (node : Node) (s : Syncer) (doc : RawSnapshot) : Except SyncOutcome (Snapshot × BitVec 64) :=
  match node.compileWithBook s.compiles doc s.book with
  | .ok snapshot => .ok (snapshot, doc.version)
  | .error e => .error ⟨false, false, false, s!"compile snapshot failed: {e}", s.active.version⟩

def replaceSnapshot (s : Syncer) (snapshot : Snapshot) (version : BitVec 64) : Syncer × SyncOutcome :=
  ({ s with active := snapshot }, ⟨true, true, false, "snapshot applied", version⟩)

/-- `apply_remote`. A cache that cannot be written is only logged. -/
def applyRemote (node : Node) (s : Syncer) (doc : RawSnapshot) (disk : Option String) : Syncer × SyncOutcome :=
  match s.compileSnapshot node doc with
  | .error outcome => ({ s with compiles := s.compiles + 1 }, outcome)
  | .ok (snapshot, version) =>
    replaceSnapshot
      { s with
        compiles := s.compiles + 1
        cacheFile := (node.saveCache doc disk s.cacheFile).1
        lastRaw := some doc } snapshot version

def apply (node : Node) (s : Syncer) (doc : RawSnapshot) : Syncer × SyncOutcome :=
  match s.compileSnapshot node doc with
  | .error outcome => ({ s with compiles := s.compiles + 1 }, outcome)
  | .ok (snapshot, version) =>
    replaceSnapshot { s with compiles := s.compiles + 1, lastRaw := some doc } snapshot version

def loadCache (node : Node) (s : Syncer) (stat read : Option String) : Syncer × SyncOutcome :=
  match node.readCache stat read s.cacheFile with
  | .ok (some raw) => s.apply node raw
  | .ok none => (s, ⟨true, false, false, "snapshot cache not found", s.active.version⟩)
  | .error e => (s, ⟨false, false, false, s!"load snapshot cache failed: {e}", s.active.version⟩)

def recordHealth (s : Syncer) (outcome : SyncOutcome) (now : Nat) : Syncer :=
  { s with
    health :=
      if outcome.success then ⟨some now, some now, none, 0⟩
      else
        { s.health with
          lastAttemptUnixSecs := some now
          failureSinceUnixSecs := some (s.health.failureSinceUnixSecs.getD now)
          consecutiveFailures := min (2 ^ 32 - 1) (s.health.consecutiveFailures + 1) } }

def syncOnceLocked (node : Node) (s : Syncer) (remote : Remote) (disk : Option String)
    (now : Nat) : Syncer × SyncOutcome :=
  let (s, outcome) :=
    match node.fetch remote s.active.version with
    | .ok (some raw) => s.applyRemote node raw disk
    | .ok none => (s, ⟨true, false, false, "no updates are required", s.active.version⟩)
    | .error e => (s, ⟨false, false, false, s!"control-plane sync failed: {e}", s.active.version⟩)
  (s.recordHealth outcome now, outcome)

def adoptAddrbook (node : Node) (s : Syncer) (book : Book) : Syncer × Res Unit :=
  match s.book with
  | none => (s, .error "no addrbook service configured")
  | some _ =>
    match s.lastRaw with
    | none => ({ s with book := some book }, .ok ())
    | some doc =>
      match node.compileWithBook s.compiles doc (some book) with
      | .error _ => ({ s with compiles := s.compiles + 1 }, .error "recompile snapshot against new addrbook")
      | .ok snapshot => ({ s with compiles := s.compiles + 1, book := some book, active := snapshot }, .ok ())

end Syncer

/-- What can be asked of a syncer, with what the network, the disk and the clock
do meanwhile. A `trySyncOnce` may find the gate taken. -/
inductive Op where
  | loadCache (stat read : Option String)
  | syncOnce (remote : Remote) (disk : Option String) (now : Nat)
  | trySyncOnce (busy : Bool) (remote : Remote) (disk : Option String) (now : Nat)
  | adoptAddrbook (book : Book)

inductive Answer where
  | outcome (o : SyncOutcome)
  | adopted (r : Res Unit)

def Answer.failed : Answer → Bool
  | .outcome o => !o.success
  | .adopted r => !r.isOk

/-- A document was put into the engine. -/
def Answer.updated : Answer → Bool
  | .outcome o => o.updated
  | .adopted _ => false

namespace Syncer

def step (node : Node) (s : Syncer) : Op → Syncer × Answer
  | .loadCache stat read => ((s.loadCache node stat read).1, .outcome (s.loadCache node stat read).2)
  | .syncOnce remote disk now =>
    ((s.syncOnceLocked node remote disk now).1, .outcome (s.syncOnceLocked node remote disk now).2)
  | .trySyncOnce busy remote disk now =>
    if busy then (s, .outcome ⟨false, false, true, "sync already running", s.active.version⟩)
    else ((s.syncOnceLocked node remote disk now).1, .outcome (s.syncOnceLocked node remote disk now).2)
  | .adoptAddrbook book => ((s.adoptAddrbook node book).1, .adopted (s.adoptAddrbook node book).2)

/-- A new syncer after some operations. -/
def run (node : Node) (book : Option Book) (cacheFile : Option (List UInt8)) (ops : List Op) : Syncer :=
  runState (step node) { book, cacheFile } ops

end Syncer

/-! ## What an operation can do -/

/-- The document that an operation brings. -/
def Op.document (node : Node) (s : Syncer) : Op → Option RawSnapshot
  | .loadCache stat read => (node.readCache stat read s.cacheFile).toOption.join
  | .syncOnce remote _ _ | .trySyncOnce _ remote _ _ => (node.fetch remote s.active.version).toOption.join
  | .adoptAddrbook _ => none

/-- The operation asks the control plane. -/
def Op.asksRemote : Op → Bool
  | .syncOnce .. | .trySyncOnce .. => true
  | _ => false

namespace Syncer

/-- An operation changes nothing that is served, accepts the document it brings,
or adopts a book. -/
inductive Effect (node : Node) (s : Syncer) (op : Op) (s' : Syncer) (a : Answer) : Prop where
  | unchanged (active : s'.active = s.active) (lastRaw : s'.lastRaw = s.lastRaw) (book : s'.book = s.book)
      (cacheFile : s'.cacheFile = s.cacheFile) (updated : a.updated = false)
  | accepted (doc : RawSnapshot) (document : op.document node s = some doc)
      (compiled : node.compileWithBook s.compiles doc s.book = .ok s'.active) (lastRaw : s'.lastRaw = some doc)
      (book : s'.book = s.book) (failed : a.failed = false) (updated : a.updated = true)
      (cacheFile : s'.cacheFile = s.cacheFile ∨
        op.asksRemote = true ∧ ∃ bytes, node.writeJson doc = .ok bytes ∧ s'.cacheFile = some bytes)
      (newer : op.asksRemote = true → s.active.version < doc.version)
  | adopted (compiled : ∀ doc, s.lastRaw = some doc → ∃ n, node.compileWithBook n doc s'.book = .ok s'.active)
      (active : s.lastRaw = none → s'.active = s.active) (lastRaw : s'.lastRaw = s.lastRaw)
      (cacheFile : s'.cacheFile = s.cacheFile) (failed : a.failed = false) (updated : a.updated = false)

theorem newer_of_fetch {node : Node} {remote : Remote} {since : BitVec 64} {doc : RawSnapshot}
    (h : node.fetch remote since = .ok (some doc)) : since < doc.version := by
  obtain ⟨resp, -, h⟩ := Res.bind_eq_ok.1 h
  split at h
  · cases h
  split at h
  · cases h
  obtain ⟨body, -, h⟩ := Res.bind_eq_ok.1 h
  obtain ⟨doc', -, h⟩ := Res.bind_eq_ok.1 h
  split at h
  · cases h
  · next hnot =>
    obtain rfl := Option.some.inj (Except.ok.inj h)
    exact BitVec.not_le.1 hnot

theorem saveCache_file (node : Node) (doc : RawSnapshot) (disk : Option String) (file : Option (List UInt8)) :
    (node.saveCache doc disk file).1 = file ∨
      ∃ bytes, node.writeJson doc = .ok bytes ∧ (node.saveCache doc disk file).1 = some bytes := by
  rw [Node.saveCache]
  split
  · exact .inl rfl
  · next bytes hwrite =>
    split
    · exact .inl rfl
    · cases disk with
      | some e => exact .inl rfl
      | none => exact .inr ⟨bytes, hwrite, rfl⟩

theorem compileSnapshot_cases (node : Node) (s : Syncer) (doc : RawSnapshot) :
    (∃ o, s.compileSnapshot node doc = .error o ∧ o.success = false ∧ o.updated = false) ∨
      ∃ snapshot, s.compileSnapshot node doc = .ok (snapshot, doc.version) ∧
        node.compileWithBook s.compiles doc s.book = .ok snapshot := by
  rw [compileSnapshot]
  cases node.compileWithBook s.compiles doc s.book with
  | error e => exact .inl ⟨_, rfl, rfl, rfl⟩
  | ok snapshot => exact .inr ⟨snapshot, rfl, rfl⟩

theorem loadCache_effect (node : Node) (s : Syncer) (stat read : Option String) :
    Effect node s (.loadCache stat read) (s.loadCache node stat read).1 (.outcome (s.loadCache node stat read).2) := by
  rw [loadCache]
  split
  · next doc hread =>
    rw [apply]
    rcases compileSnapshot_cases node s doc with ⟨o, hc, hsuccess, hupdated⟩ | ⟨snapshot, hc, hcompiled⟩
    · rw [hc]
      exact .unchanged rfl rfl rfl rfl hupdated
    · rw [hc]
      refine .accepted doc ?_ hcompiled rfl rfl rfl rfl (.inl rfl) nofun
      rw [Op.document, hread]
      rfl
  · exact .unchanged rfl rfl rfl rfl rfl
  · exact .unchanged rfl rfl rfl rfl rfl

theorem syncOnceLocked_effect {node : Node} {s : Syncer} {op : Op} {remote : Remote} (hop : op.asksRemote = true)
    (hdoc : op.document node s = (node.fetch remote s.active.version).toOption.join)
    (disk : Option String) (now : Nat) : Effect node s op (s.syncOnceLocked node remote disk now).1
    (.outcome (s.syncOnceLocked node remote disk now).2) := by
  rw [syncOnceLocked]
  cases hfetch : node.fetch remote s.active.version with
  | error e => exact .unchanged rfl rfl rfl rfl rfl
  | ok found =>
    cases found with
    | none => exact .unchanged rfl rfl rfl rfl rfl
    | some doc =>
      rw [hfetch] at hdoc
      dsimp only
      rw [applyRemote]
      rcases compileSnapshot_cases node s doc with ⟨o, hc, hsuccess, hupdated⟩ | ⟨snapshot, hc, hcompiled⟩
      · rw [hc]
        exact .unchanged rfl rfl rfl rfl hupdated
      · rw [hc]
        refine .accepted doc hdoc hcompiled rfl rfl rfl rfl ?_ fun _ => newer_of_fetch hfetch
        exact (saveCache_file node doc disk s.cacheFile).imp_right fun h => ⟨hop, h⟩

theorem adoptAddrbook_effect (node : Node) (s : Syncer) (book : Book) :
    Effect node s (.adoptAddrbook book) (s.adoptAddrbook node book).1 (.adopted (s.adoptAddrbook node book).2) := by
  rw [adoptAddrbook]
  split
  · exact .unchanged rfl rfl rfl rfl rfl
  · split
    · next hraw =>
      refine .adopted (fun doc hdoc => ?_) (fun _ => rfl) rfl rfl rfl rfl
      rw [hraw] at hdoc
      cases hdoc
    · next doc hraw =>
      split
      · exact .unchanged rfl rfl rfl rfl rfl
      · next snapshot hcompiled =>
        refine .adopted (fun doc' hdoc => ?_) (fun hnone => ?_) rfl rfl rfl rfl
        · obtain rfl := Option.some.inj (hraw.symm.trans hdoc)
          exact ⟨s.compiles, hcompiled⟩
        · rw [hraw] at hnone
          cases hnone

theorem step_effect (node : Node) (s : Syncer) (op : Op) : Effect node s op (s.step node op).1 (s.step node op).2 := by
  cases op with
  | loadCache stat read => exact loadCache_effect node s stat read
  | syncOnce remote disk now => exact syncOnceLocked_effect rfl rfl disk now
  | trySyncOnce busy remote disk now =>
    cases busy with
    | true => exact .unchanged rfl rfl rfl rfl rfl
    | false => exact syncOnceLocked_effect rfl rfl disk now
  | adoptAddrbook book => exact adoptAddrbook_effect node s book

/-! ## Every history -/

/-- What is active is the last accepted document, compiled for this node with
the current book. -/
def Coherent (node : Node) (s : Syncer) : Prop :=
  match s.lastRaw with
  | none => s.active = .empty
  | some doc => ∃ n, node.compileWithBook n doc s.book = .ok s.active

theorem coherent_step {node : Node} {s : Syncer} (hs : s.Coherent node) (op : Op) :
    (s.step node op).1.Coherent node := by
  rw [Coherent] at hs ⊢
  cases step_effect node s op with
  | unchanged active lastRaw book => rwa [lastRaw, active, book]
  | accepted doc _ compiled lastRaw book =>
    rw [lastRaw, book]
    exact ⟨s.compiles, compiled⟩
  | adopted compiled active lastRaw =>
    rw [lastRaw]
    cases hraw : s.lastRaw with
    | none =>
      rw [hraw] at hs
      exact (active hraw).trans hs
    | some doc => exact compiled doc hraw

theorem coherent_run (node : Node) (book : Option Book) (cacheFile : Option (List UInt8)) (ops : List Op) :
    (run node book cacheFile ops).Coherent node := by
  have hstart : ({ book, cacheFile } : Syncer).Coherent node := rfl
  exact runState_induction (fun s op (hs : s.Coherent node) => coherent_step hs op) hstart ops

theorem version_of_compile {node : Node} {n : Nat} {doc : RawSnapshot} {book : Option Book} {snapshot : Snapshot}
    (h : node.compileWithBook n doc book = .ok snapshot) : snapshot.version = doc.version := by
  obtain ⟨⟨s, book'⟩, hcompile, rfl⟩ := Res.map_eq_ok.1 h
  exact (compileChecked_spec hcompile).version

end Syncer

/-- After any operations, what is active is the last accepted document compiled
with the current book. The next operation replaces that document only by one it
brings and reports as applied; if it fails, it leaves the active snapshot, the
document and the book as they were. It writes the cache file only with a
document of the control plane that decodes and compiles, and such a document
never lowers the active version. -/
theorem syncer_coherent (node : Node) (book : Option Book) (cacheFile : Option (List UInt8)) (ops : List Op) (op : Op) :
    let s := Syncer.run node book cacheFile ops
    let s' := (s.step node op).1
    let answer := (s.step node op).2
    s.Coherent node ∧
      s'.lastRaw = (if answer.updated then op.document node s else s.lastRaw) ∧
      (answer.failed = true → s'.active = s.active ∧ s'.lastRaw = s.lastRaw ∧ s'.book = s.book) ∧
      (s'.cacheFile ≠ s.cacheFile → op.asksRemote = true ∧ ∃ doc snapshot bytes, op.document node s = some doc ∧
        node.compileWithBook s.compiles doc s.book = .ok snapshot ∧ node.writeJson doc = .ok bytes ∧
        s'.cacheFile = some bytes) ∧
      (op.asksRemote = true → answer.updated = true → s.active.version < s'.active.version) := by
  intro s s' answer
  refine ⟨Syncer.coherent_run node book cacheFile ops, ?_⟩
  cases Syncer.step_effect node s op with
  | unchanged active lastRaw hbook file updated =>
    refine ⟨?_, fun _ => ⟨active, lastRaw, hbook⟩, fun hfile => absurd file hfile, fun _ hupdated => ?_⟩
    · rw [updated]
      exact lastRaw
    · rw [updated] at hupdated
      cases hupdated
  | accepted doc document compiled lastRaw hbook failed updated file newer =>
    refine ⟨?_, fun hfailed => ?_, fun hfile => ?_, fun hremote _ => ?_⟩
    · rw [updated, document]
      exact lastRaw
    · rw [failed] at hfailed
      cases hfailed
    · obtain ⟨hremote, bytes, hwrite, hbytes⟩ := file.resolve_left hfile
      exact ⟨hremote, doc, _, bytes, document, compiled, hwrite, hbytes⟩
    · rw [Syncer.version_of_compile compiled]
      exact newer hremote
  | adopted compiled active lastRaw file failed updated =>
    refine ⟨?_, fun hfailed => ?_, fun hfile => absurd file hfile, fun _ hupdated => ?_⟩
    · rw [updated]
      exact lastRaw
    · rw [failed] at hfailed
      cases hfailed
    · rw [updated] at hupdated
      cases hupdated

end Rove.Sync
