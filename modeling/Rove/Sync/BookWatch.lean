/-
The address-book file on disk and the book that is served (`AddrBookService` and
`poll_file_changes` of `addrbook/mod.rs`). A poll compares the stamp of the file
with the one acknowledged last, reads and decodes the file, has the syncer adopt
the book, and acknowledges the stamp; syncs go on between these steps.

`content` says what a file with a given stamp holds: equal stamps mean equal
content, and a read between two equal stamps reads it.
-/
import Rove.AddrBook.Decoded
import Rove.Sync.Health

namespace Rove.Sync

open Res
open AddrBook (Book Digest)

def maxArtifactBytes : Nat := 256 * 1024 * 1024

structure ArtifactStamp where
  modified : Nat
  len : BitVec 64
  dev : BitVec 64
  ino : BitVec 64
  deriving DecidableEq

/-- What one round of `read_stable_artifact` meets; `none` is an error. (The
metadata of a file always has its modification time.) -/
structure Attempt where
  opens : Bool
  before : Option ArtifactStamp
  bytes : Option Bytes
  after : Option ArtifactStamp
  onPath : Option ArtifactStamp

def orFail {α : Type} (e : String) : Option α → Res α
  | some a => pure a
  | none => throw e

/-- One round: the content and its stamp, unless the file changed. -/
def Attempt.read (path : Str) (a : Attempt) : Res (Option (Bytes × ArtifactStamp)) := do
  let name := Str.debug path
  ensure (a.opens = true) s!"open addrbook artifact {name} failed"
  let before ← orFail s!"stat open addrbook artifact {name} failed" a.before
  ensure (before.len.toNat ≤ maxArtifactBytes) s!"addrbook artifact {name} exceeds {maxArtifactBytes} byte limit"
  let bytes ← orFail s!"read addrbook artifact {name} failed" a.bytes
  ensure (bytes.length ≤ maxArtifactBytes) s!"addrbook artifact {name} exceeds {maxArtifactBytes} byte limit"
  let after ← orFail s!"restat open addrbook artifact {name} failed" a.after
  let onPath ← orFail s!"restat addrbook path {name} failed" a.onPath
  pure (if before = after ∧ after = onPath then some (bytes, after) else none)

/-- The rounds that are left. -/
def readRounds (path : Str) : List Attempt → Res (Bytes × ArtifactStamp)
  | [] =>
    let name := Str.debug path
    throw s!"addrbook artifact {name} changed repeatedly while being read"
  | a :: attempts => do
    match ← a.read path with
    | some found => pure found
    | none => readRounds path attempts

def readStableArtifact (path : Str) (attempts : Nat → Attempt) : Res (Bytes × ArtifactStamp) :=
  readRounds path [attempts 0, attempts 1, attempts 2]

/-- Where `poll_file_changes` is: it waits for a tick, or has read a book and not
yet handed it over, or its book is installed and the stamp not yet acknowledged. -/
inductive Poller where
  | waiting
  | candidate (book : Book) (stamp : ArtifactStamp)
  | adopted (stamp : ArtifactStamp)

/-- The service and its poller, with the syncer that holds the book. -/
structure Watch where
  syncer : Syncer
  lastStamp : Option ArtifactStamp
  poller : Poller := .waiting

/-- The stamp acknowledged last, or the one that is about to be. -/
def Watch.dueStamp (w : Watch) : Option ArtifactStamp :=
  match w.poller with
  | .adopted stamp => some stamp
  | _ => w.lastStamp

inductive WatchEvent where
  | sync (op : Op)
  | poll (stat : Option ArtifactStamp) (attempts : Nat → Attempt)
  | adopt
  | acknowledge

section
variable (sha256 : Bytes → Digest) (node : Node) (path : Str)

/-- `AddrBookService::load`, for a node that starts with a cache file or none. -/
def Watch.load (attempts : Nat → Attempt) (cacheFile : Option (List UInt8)) : Res Watch := do
  let (bytes, stamp) ← readStableArtifact path attempts
  let book ← (Book.fromBytes sha256 bytes).mapError fun _ => s!"load addrbook {Str.debug path}"
  pure ⟨{ book := some book, cacheFile }, some stamp, .waiting⟩

def Watch.changedStamp (w : Watch) (stat : Option ArtifactStamp) : Res (Option ArtifactStamp) := do
  let stamp ← orFail s!"stat addrbook artifact {Str.debug path} failed" stat
  pure (if w.lastStamp = some stamp then none else some stamp)

def Watch.tryReadNew (w : Watch) (attempts : Nat → Attempt) : Res (Option Book × ArtifactStamp) := do
  let (bytes, stamp) ← readStableArtifact path attempts
  let book ← (Book.fromBytes sha256 bytes).mapError fun _ => s!"decode addrbook {Str.debug path}"
  pure (if some book.checksum = w.syncer.book.map (·.checksum) then none else some book, stamp)

/-- One event. Only the poller adopts a book. -/
def Watch.step (w : Watch) : WatchEvent → Watch
  | .sync (.adoptAddrbook _) => w
  | .sync op => { w with syncer := (w.syncer.step node op).1 }
  | .poll stat attempts =>
    match w.poller, w.changedStamp path stat with
    | .waiting, .ok (some _) =>
      match w.tryReadNew sha256 path attempts with
      | .ok (none, stamp) => { w with lastStamp := some stamp }
      | .ok (some book, stamp) => { w with poller := .candidate book stamp }
      | .error _ => w
    | _, _ => w
  | .adopt =>
    match w.poller with
    | .candidate book stamp =>
      match w.syncer.adoptAddrbook node book with
      | (syncer, .ok _) => { w with syncer, poller := .adopted stamp }
      | (syncer, .error _) => { w with syncer, poller := .waiting }
    | _ => w
  | .acknowledge =>
    match w.poller with
    | .adopted stamp => { w with lastStamp := some stamp, poller := .waiting }
    | _ => w

def Watch.run (w : Watch) (events : List WatchEvent) : Watch := events.foldl (Watch.step sha256 node path) w

end

/-! ## Reads -/

/-- Between equal stamps the file holds what a file with that stamp holds. -/
def Attempt.Reads (content : ArtifactStamp → Bytes) (a : Attempt) : Prop :=
  ∀ stamp, a.before = some stamp → a.after = some stamp →
    ∀ bytes, a.bytes = some bytes → bytes = (content stamp).take (maxArtifactBytes + 1)

def WatchEvent.Reads (content : ArtifactStamp → Bytes) : WatchEvent → Prop
  | .poll _ attempts => ∀ i, (attempts i).Reads content
  | _ => True

variable {sha256 : Bytes → Digest} {node : Node} {path : Str} {content : ArtifactStamp → Bytes} {w : Watch}

theorem orFail_eq_ok {α : Type} {e : String} {x : Option α} {a : α} : orFail e x = .ok a ↔ x = some a := by
  cases x with
  | none => simp [orFail, throw, throwThe, MonadExceptOf.throw]
  | some b => simp [orFail, pure, Except.pure]

theorem Attempt.read_eq_ok {a : Attempt} (ha : a.Reads content) {bytes stamp}
    (h : a.read path = .ok (some (bytes, stamp))) : bytes = content stamp := by
  obtain ⟨-, h⟩ := ensure_bind_eq_ok.1 h
  obtain ⟨before, hbefore, h⟩ := bind_eq_ok.1 h
  obtain ⟨-, h⟩ := ensure_bind_eq_ok.1 h
  obtain ⟨read, hread, h⟩ := bind_eq_ok.1 h
  obtain ⟨hlen, h⟩ := ensure_bind_eq_ok.1 h
  obtain ⟨after, hafter, h⟩ := bind_eq_ok.1 h
  obtain ⟨onPath, -, h⟩ := bind_eq_ok.1 h
  replace h := pure_eq_ok.1 h
  split at h
  · next heq =>
    cases h
    have hbytes := ha _ (heq.1 ▸ orFail_eq_ok.1 hbefore) (orFail_eq_ok.1 hafter) _ (orFail_eq_ok.1 hread)
    -- the content was not cut: it would be too long
    rw [hbytes, List.length_take] at hlen
    rw [hbytes, List.take_of_length_le (by omega)]
  · cases h

theorem readStableArtifact_eq_ok {attempts : Nat → Attempt} (ha : ∀ i, (attempts i).Reads content) {bytes stamp}
    (h : readStableArtifact path attempts = .ok (bytes, stamp)) : bytes = content stamp := by
  have hall : ∀ l : List Attempt, (∀ a ∈ l, a.Reads content) → readRounds path l = .ok (bytes, stamp) →
    bytes = content stamp := by
    intro l hl h
    induction l with
    | nil => cases h
    | cons a l ih =>
      obtain ⟨hone, hl⟩ := List.forall_mem_cons.1 hl
      obtain ⟨found, hfound, h⟩ := bind_eq_ok.1 h
      cases found with
      | none => exact ih hl h
      | some found =>
        cases h
        exact Attempt.read_eq_ok hone hfound
  exact hall _ (by simp [ha]) h

theorem Watch.tryReadNew_eq_ok {attempts : Nat → Attempt} (ha : ∀ i, (attempts i).Reads content) {found stamp}
    (h : w.tryReadNew sha256 path attempts = .ok (found, stamp)) :
    ∃ book, Book.fromBytes sha256 (content stamp) = .ok book ∧
      found = if some book.checksum = w.syncer.book.map (·.checksum) then none else some book := by
  obtain ⟨⟨bytes, stamp'⟩, hbytes, h⟩ := bind_eq_ok.1 h
  obtain ⟨book, hbook, h⟩ := bind_eq_ok.1 h
  cases h
  obtain rfl := readStableArtifact_eq_ok ha hbytes
  exact ⟨book, mapError_eq_ok.1 hbook, rfl⟩

theorem checksum_of_fromBytes {bytes book} (h : Book.fromBytes sha256 bytes = .ok book) :
    book.checksum = sha256 bytes := by
  obtain ⟨raw, -, rfl⟩ := AddrBook.fromBytes_eq_ok.1 h
  rfl

/-! ## What is served -/

/-- The book that is served is in the file with the stamp that is acknowledged or
about to be; a book that was read and not yet handed over is another one, from the
file it was read from. -/
structure Watch.Sound (sha256 : Bytes → Digest) (content : ArtifactStamp → Bytes) (w : Watch) : Prop where
  served : ∃ stamp book, w.dueStamp = some stamp ∧ w.syncer.book = some book ∧
    Book.fromBytes sha256 (content stamp) = .ok book
  candidate : ∀ book stamp, w.poller = .candidate book stamp → Book.fromBytes sha256 (content stamp) = .ok book ∧
    some book.checksum ≠ w.syncer.book.map (·.checksum)

theorem book_sync (node : Node) (s : Syncer) {op : Op} (hop : ∀ book, op ≠ .adoptAddrbook book) :
    (s.step node op).1.book = s.book := by
  have hload : ∀ stat read, (s.loadCache node stat read).1.book = s.book := by
    intro stat read
    unfold Syncer.loadCache Syncer.apply
    split
    · split <;> rfl
    · rfl
    · rfl
  have hsync : ∀ remote disk now, (s.syncOnceLocked node remote disk now).1.book = s.book := by
    intro remote disk now
    unfold Syncer.syncOnceLocked Syncer.applyRemote
    cases node.fetch remote s.active.version with
    | error e => rfl
    | ok found =>
      cases found with
      | none => rfl
      | some doc =>
        dsimp only
        split <;> rfl
  cases op with
  | loadCache stat read => exact hload stat read
  | syncOnce remote disk now => exact hsync remote disk now
  | trySyncOnce busy remote disk now =>
    cases busy
    · exact hsync remote disk now
    · rfl
  | adoptAddrbook book => exact absurd rfl (hop book)

theorem book_adoptAddrbook {s s' : Syncer} {current book : Book} (hcurrent : s.book = some current) {r : Res Unit}
    (h : s.adoptAddrbook node book = (s', r)) : s'.book = if r.isOk then some book else some current := by
  rw [Syncer.adoptAddrbook, hcurrent] at h
  dsimp only at h
  split at h
  · cases h
    rfl
  · split at h <;> cases h <;> rfl

/-- A sync changes neither the book nor what the poller knows. -/
theorem Watch.step_sync (sha256 : Bytes → Digest) (node : Node) (path : Str) (w : Watch) (op : Op) : ∃ syncer,
    w.step sha256 node path (.sync op) = { w with syncer } ∧ syncer.book = w.syncer.book := by
  cases op with
  | adoptAddrbook book => exact ⟨w.syncer, rfl, rfl⟩
  | _ => exact ⟨_, rfl, book_sync node w.syncer (by simp)⟩

theorem Watch.Sound.sync (h : w.Sound sha256 content) (op : Op) :
    (w.step sha256 node path (.sync op)).Sound sha256 content := by
  obtain ⟨syncer, hstep, hbook⟩ := w.step_sync sha256 node path op
  rw [hstep]
  exact ⟨hbook ▸ h.served, hbook ▸ h.candidate⟩

theorem Watch.Sound.poll (h : w.Sound sha256 content)
    (hdigest : ∀ s t, sha256 (content s) = sha256 (content t) → content s = content t) {attempts : Nat → Attempt}
    (ha : ∀ i, (attempts i).Reads content) (stat : Option ArtifactStamp) :
    (w.step sha256 node path (.poll stat attempts)).Sound sha256 content := by
  rw [Watch.step]
  split
  · next hwaiting _ =>
    split
    · next stamp hread =>
      obtain ⟨book, hbook, hsame⟩ := Watch.tryReadNew_eq_ok ha hread
      -- the file holds what is served, or the digests of two files would be the same
      obtain ⟨st, current, -, hcurrent, hdecode⟩ := h.served
      rw [hcurrent] at hsame
      have hsum : book.checksum = current.checksum := by
        by_contra hne
        rw [if_neg (by simpa using hne)] at hsame
        cases hsame
      rw [checksum_of_fromBytes hbook, checksum_of_fromBytes hdecode] at hsum
      exact ⟨⟨stamp, current, by simp [Watch.dueStamp, hwaiting], hcurrent,
        by rw [hdigest _ _ hsum, hdecode]⟩, h.candidate⟩
    · next book stamp hread =>
      obtain ⟨read, hbook, hnew⟩ := Watch.tryReadNew_eq_ok ha hread
      refine ⟨by simpa [Watch.dueStamp, hwaiting] using h.served, fun b st hcandidate => ?_⟩
      obtain ⟨rfl, rfl⟩ := Poller.candidate.inj hcandidate
      split at hnew
      · cases hnew
      · next hne =>
        cases hnew
        exact ⟨hbook, hne⟩
    · exact h
  · exact h

theorem Watch.Sound.adopt (h : w.Sound sha256 content) : (w.step sha256 node path .adopt).Sound sha256 content := by
  rw [Watch.step]
  split
  · next book stamp hcandidate =>
    obtain ⟨st, current, hstamp, hcurrent, hdecode⟩ := h.served
    rw [Watch.dueStamp, hcandidate] at hstamp
    split
    · next heq => exact ⟨⟨stamp, book, rfl, book_adoptAddrbook hcurrent heq, (h.candidate book stamp hcandidate).1⟩,
        nofun⟩
    · next heq => exact ⟨⟨st, current, hstamp, book_adoptAddrbook hcurrent heq, hdecode⟩, nofun⟩
  · exact h

theorem Watch.Sound.acknowledge (h : w.Sound sha256 content) :
    (w.step sha256 node path .acknowledge).Sound sha256 content := by
  rw [Watch.step]
  split
  · next stamp hadopted => exact ⟨by simpa [Watch.dueStamp, hadopted] using h.served, nofun⟩
  · exact h

theorem Watch.Sound.run (h : w.Sound sha256 content)
    (hdigest : ∀ s t, sha256 (content s) = sha256 (content t) → content s = content t) {events : List WatchEvent}
    (hreads : ∀ e ∈ events, e.Reads content) : (w.run sha256 node path events).Sound sha256 content := by
  induction events generalizing w with
  | nil => exact h
  | cons e events ih =>
    obtain ⟨he, hreads⟩ := List.forall_mem_cons.1 hreads
    refine ih ?_ hreads
    cases e with
    | sync op => exact h.sync op
    | poll stat attempts => exact h.poll hdigest he stat
    | adopt => exact h.adopt
    | acknowledge => exact h.acknowledge

theorem Watch.run_syncs (sha256 : Bytes → Digest) (node : Node) (path : Str) (w : Watch) (ops : List Op) : ∃ syncer,
    w.run sha256 node path (ops.map .sync) = { w with syncer } ∧ syncer.book = w.syncer.book := by
  induction ops generalizing w with
  | nil => exact ⟨w.syncer, rfl, rfl⟩
  | cons op ops ih =>
    obtain ⟨s, hstep, hs⟩ := w.step_sync sha256 node path op
    obtain ⟨s', hrun, hs'⟩ := ih { w with syncer := s }
    exact ⟨s', by rw [← hrun, ← hstep]; rfl, hs'.trans hs⟩

theorem Watch.step_adopt_rejected (sha256 : Bytes → Digest) (path : Str) {book stamp current}
    (hcandidate : w.poller = .candidate book stamp) (hcurrent : w.syncer.book = some current)
    (h : (w.syncer.adoptAddrbook node book).2.isOk = false) : ∃ syncer,
    w.step sha256 node path .adopt = ⟨syncer, w.lastStamp, .waiting⟩ ∧ syncer.book = w.syncer.book := by
  rw [Watch.step, hcandidate]
  dsimp only
  split
  · next heq =>
    rw [heq] at h
    cases h
  · next heq => exact ⟨_, rfl, (book_adoptAddrbook hcurrent heq).trans hcurrent.symm⟩

theorem Watch.step_poll_changed {book stamp} {attempts : Nat → Attempt} (hwaiting : w.poller = .waiting)
    (hstamp : w.lastStamp ≠ some stamp) (hread : readStableArtifact path attempts = .ok (content stamp, stamp))
    (hbook : Book.fromBytes sha256 (content stamp) = .ok book)
    (hnew : some book.checksum ≠ w.syncer.book.map (·.checksum)) :
    (w.step sha256 node path (.poll (some stamp) attempts)).poller = .candidate book stamp := by
  have hchanged : w.changedStamp path (some stamp) = .ok (some stamp) := by
    show Except.ok (if w.lastStamp = some stamp then none else some stamp) = _
    rw [if_neg hstamp]
  have htry : w.tryReadNew sha256 path attempts = .ok (some book, stamp) := by
    rw [Watch.tryReadNew, hread, ok_bind]
    dsimp only
    rw [mapError_eq_ok.2 hbook, ok_bind, if_neg hnew]
    rfl
  rw [Watch.step, hwaiting, hchanged]
  rw [htry]

/-- In every history of a service that was loaded, the book of the file with the
acknowledged stamp is served; once a book is installed, that of the file whose stamp
is acknowledged next. The stamp of a book that is rejected is not acknowledged, and
whatever is synced meanwhile, the next poll that finds the file reads the book to
hand it over again. -/
theorem acknowledged_is_served (sha256 : Bytes → Digest) (node : Node) (path : Str) (content : ArtifactStamp → Bytes)
    (hdigest : ∀ s t, sha256 (content s) = sha256 (content t) → content s = content t) (attempts : Nat → Attempt)
    (hattempts : ∀ i, (attempts i).Reads content) (cacheFile : Option (List UInt8)) (start : Watch)
    (hload : Watch.load sha256 path attempts cacheFile = .ok start) (events : List WatchEvent)
    (hreads : ∀ e ∈ events, e.Reads content) :
    let w := start.run sha256 node path events
    (∀ stamp, w.dueStamp = some stamp →
      ∃ book, Book.fromBytes sha256 (content stamp) = .ok book ∧ w.syncer.book = some book) ∧
    ∀ book stamp, w.poller = .candidate book stamp → (w.syncer.adoptAddrbook node book).2.isOk = false →
      ∀ ops : List Op,
        let w' := (w.step sha256 node path .adopt).run sha256 node path (ops.map .sync)
        w'.dueStamp ≠ some stamp ∧ ∀ again, readStableArtifact path again = .ok (content stamp, stamp) →
          (w'.step sha256 node path (.poll (some stamp) again)).poller = .candidate book stamp := by
  intro w
  have hstart : start.Sound sha256 content := by
    obtain ⟨⟨bytes, stamp⟩, hbytes, h⟩ := bind_eq_ok.1 hload
    obtain ⟨book, hbook, h⟩ := bind_eq_ok.1 h
    cases h
    obtain rfl := readStableArtifact_eq_ok hattempts hbytes
    exact ⟨⟨stamp, book, rfl, rfl, mapError_eq_ok.1 hbook⟩, nofun⟩
  have hw : w.Sound sha256 content := hstart.run hdigest hreads
  obtain ⟨st, current, hst, hcurrent, hdecode⟩ := hw.served
  refine ⟨fun stamp hstamp => ?_, fun book stamp hcandidate hrejected ops => ?_⟩
  · obtain rfl := Option.some.inj (hst.symm.trans hstamp)
    exact ⟨current, hdecode, hcurrent⟩
  · obtain ⟨hbook, hnew⟩ := hw.candidate book stamp hcandidate
    have hlast : w.lastStamp = some st := by simpa [Watch.dueStamp, hcandidate] using hst
    have hne : w.lastStamp ≠ some stamp := by
      rw [hlast]
      rintro ⟨⟩
      obtain rfl := Except.ok.inj (hbook.symm.trans hdecode)
      exact hnew (by rw [hcurrent]; rfl)
    -- the rejected book is not installed, and the syncs do not install another
    obtain ⟨s, hadopt, hkept⟩ := Watch.step_adopt_rejected sha256 path hcandidate hcurrent hrejected
    obtain ⟨s', hrun, hs'⟩ := Watch.run_syncs sha256 node path ⟨s, w.lastStamp, .waiting⟩ ops
    rw [hadopt, hrun]
    refine ⟨hne, fun again hread => Watch.step_poll_changed rfl hne hread hbook ?_⟩
    rw [hs', hkept]
    exact hnew

/-! ## A file that is replaced -/

def firstBytes (bytes : Bytes) : Digest := ⟨(bytes ++ List.replicate 32 0).take 32, by simp⟩

/-- A book, then its next build, then a book without any category. -/
def releaseFile (stamp : ArtifactStamp) : Bytes :=
  match stamp.modified with
  | 0 => AddrBook.fileBytes firstBytes AddrBook.sampleBook
  | 1 => AddrBook.fileBytes firstBytes { AddrBook.sampleBook with buildEpoch := 8 }
  | _ => AddrBook.fileBytes firstBytes {}

def releaseStamp (n : Nat) : ArtifactStamp := ⟨n, 0, 0, 0⟩

def releaseAttempt (n : Nat) : Attempt :=
  ⟨true, some (releaseStamp n), some (releaseFile (releaseStamp n)), some (releaseStamp n), some (releaseStamp n)⟩

def pollRelease (n : Nat) : WatchEvent := .poll (some (releaseStamp n)) fun _ => releaseAttempt n

theorem releaseFile_cases (s : ArtifactStamp) : releaseFile s = releaseFile (releaseStamp 0) ∨
    releaseFile s = releaseFile (releaseStamp 1) ∨ releaseFile s = releaseFile (releaseStamp 2) := by
  rw [releaseFile]
  split
  · exact .inl rfl
  · exact .inr (.inl rfl)
  · exact .inr (.inr rfl)

theorem firstBytes_releaseFile (s t : ArtifactStamp) (h : firstBytes (releaseFile s) = firstBytes (releaseFile t)) :
    releaseFile s = releaseFile t := by
  rcases releaseFile_cases s with hs | hs | hs <;> rcases releaseFile_cases t with ht | ht | ht <;> rw [hs, ht] at h ⊢
  all_goals exact absurd h (by decide +kernel)

theorem reads_releaseAttempt (n : Nat) : (releaseAttempt n).Reads releaseFile := by
  have hlen : (releaseFile (releaseStamp n)).length ≤ maxArtifactBytes := by
    rcases releaseFile_cases (releaseStamp n) with h | h | h <;> rw [h] <;> decide +kernel
  rintro stamp ⟨⟩ - bytes ⟨⟩
  rw [List.take_of_length_le (Nat.le_succ_of_le hlen)]

/-- A policy that asks for a category of the first two books. -/
def categoryDocument : Json :=
  .obj [("schema_version", .int 1), ("version", .int 1), ("routing_policies", .obj [("p",
    .obj [("routes", .arr [.obj [("selectors", .arr [.str "book:google"]),
      ("action", .obj [("type", .str "direct")])]])])])]

def categoryNode : Node := { lonelyNode with readJson _ := .ok categoryDocument }

/-- A service that was loaded with the first book, after some events. -/
def releaseRun (events : List WatchEvent) : Res Watch :=
  (Watch.load firstBytes [] (fun _ => releaseAttempt 0) (some [])).map (·.run firstBytes categoryNode [] events)

theorem exists_of_releaseRun {events w} (h : releaseRun events = .ok w) : ∃ start,
    Watch.load firstBytes [] (fun _ => releaseAttempt 0) (some []) = .ok start ∧
      start.run firstBytes categoryNode [] events = w := by
  unfold releaseRun at h
  cases hload : Watch.load firstBytes [] (fun _ => releaseAttempt 0) (some []) with
  | error e =>
    rw [hload] at h
    cases h
  | ok start =>
    rw [hload] at h
    exact ⟨start, rfl, Except.ok.inj h⟩

def Poller.read : Poller → Option (Book × ArtifactStamp)
  | .candidate book stamp => some (book, stamp)
  | _ => none

theorem Poller.read_eq_some {p : Poller} {book stamp} (h : p.read = some (book, stamp)) :
    p = .candidate book stamp := by
  cases p with
  | candidate => cases h; rfl
  | waiting | adopted => cases h

/-- Between its installation and the acknowledgement a new book is served under the
old stamp, and the old file may be back by then. -/
theorem new_book_under_old_stamp :
    (∀ s t, firstBytes (releaseFile s) = firstBytes (releaseFile t) → releaseFile s = releaseFile t) ∧
    (∀ n, (releaseAttempt n).Reads releaseFile) ∧
    ∃ w, releaseRun [pollRelease 1, .adopt] = .ok w ∧ w.lastStamp = some (releaseStamp 0) ∧
      ∃ book, Book.fromBytes firstBytes (releaseFile (releaseStamp 0)) = .ok book ∧ w.syncer.book ≠ some book := by
  refine ⟨firstBytes_releaseFile, reads_releaseAttempt, ?_⟩
  obtain ⟨book, hbook⟩ := exists_of_isOk (x := Book.fromBytes firstBytes (releaseFile (releaseStamp 0)))
    (by decide +kernel)
  obtain ⟨w, hw⟩ := exists_of_isOk (x := releaseRun [pollRelease 1, .adopt]) (by decide +kernel)
  have hrun : (releaseRun [pollRelease 1, .adopt]).toOption.map
    (fun w => (w.lastStamp, w.syncer.book.map (·.checksum))) =
      some (some (releaseStamp 0), some (firstBytes (releaseFile (releaseStamp 1)))) := by decide +kernel
  rw [hw] at hrun
  obtain ⟨hlast, hsum⟩ := Prod.mk.inj (Option.some.inj hrun)
  refine ⟨w, hw, hlast, book, hbook, fun heq => ?_⟩
  rw [heq, Option.map_some, checksum_of_fromBytes hbook] at hsum
  exact absurd (Option.some.inj hsum) (by decide +kernel)

/-- The second book replaces the first; the third is rejected, and read again. -/
theorem acknowledged_is_served_releases :
    let events := [.sync (.loadCache none none), pollRelease 1, .adopt, .acknowledge, pollRelease 2]
    ∃ w, releaseRun events = .ok w ∧ w.lastStamp = some (releaseStamp 1) ∧
      (∃ book, Book.fromBytes firstBytes (releaseFile (releaseStamp 1)) = .ok book ∧ w.syncer.book = some book) ∧
      ∃ book, w.poller = .candidate book (releaseStamp 2) ∧ (w.syncer.adoptAddrbook categoryNode book).2.isOk = false ∧
        let w' := w.step firstBytes categoryNode [] .adopt
        w'.dueStamp ≠ some (releaseStamp 2) ∧
          (w'.step firstBytes categoryNode [] (pollRelease 2)).poller = .candidate book (releaseStamp 2) := by
  intro events
  obtain ⟨w, hw⟩ := exists_of_isOk (x := releaseRun events) (by decide +kernel)
  have hrun : (releaseRun events).toOption.map (fun w => (w.lastStamp,
      w.poller.read.map fun read => (read.2, (w.syncer.adoptAddrbook categoryNode read.1).2.isOk))) =
      some (some (releaseStamp 1), some (releaseStamp 2, false)) := by decide +kernel
  rw [hw] at hrun
  obtain ⟨hlast, hread⟩ := Prod.mk.inj (Option.some.inj hrun)
  obtain ⟨⟨book, stamp⟩, hread, heq⟩ := Option.map_eq_some_iff.1 hread
  obtain ⟨rfl, hrejected⟩ := Prod.mk.inj heq
  have hcandidate := Poller.read_eq_some hread
  obtain ⟨start, hload, rfl⟩ := exists_of_releaseRun hw
  have hreads : ∀ e ∈ events, e.Reads releaseFile := by
    simp [events, pollRelease, WatchEvent.Reads, reads_releaseAttempt]
  obtain ⟨hserved, hagain⟩ := acknowledged_is_served firstBytes categoryNode [] releaseFile firstBytes_releaseFile _
    (fun _ => reads_releaseAttempt 0) (some []) start hload events hreads
  obtain ⟨hnot, hagain⟩ := hagain book _ hcandidate hrejected []
  refine ⟨_, hw, hlast, hserved _ ?_, book, hcandidate, hrejected, hnot, hagain _ (by decide +kernel)⟩
  rw [Watch.dueStamp, hcandidate]
  exact hlast

end Rove.Sync
