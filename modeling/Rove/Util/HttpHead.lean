/-
The helpers of `util.rs` that the HTTP inbound and the outbound connectors
share: reading one header block off a stream, and a first look at a response.

A stream is the list of what its reads return; it ends with the list, or
with an empty read.
-/
import Rove.Base.FindSub
import Rove.Base.Result

namespace Rove.Util

open List

/-- `\r\n`. -/
def crlf : Bytes := [13, 10]

/-- `\r\n\r\n`. -/
def headEnd : Bytes := [13, 10, 13, 10]

/-- What `read_http_head_with_remainder` leaves: the head, what was read
beyond it, and what has not been read. -/
structure Head where
  head : Bytes
  remainder : Bytes
  unread : List Bytes
  deriving DecidableEq

/-- The loop of `read_http_head_with_remainder`, with `buf` read so far. -/
def readHead (cap : Nat) : Bytes → List Bytes → Res Head
  | buf, [] => pure ⟨buf, [], []⟩
  | buf, read :: reads =>
    if read = [] then pure ⟨buf, [], reads⟩
    else
      let buf := buf ++ read
      match findSub headEnd buf with
      | some start =>
        if start + 4 > cap then throw "header too large"
        else pure ⟨buf.take (start + 4), buf.drop (start + 4), reads⟩
      | none => if buf.length > cap then throw "header too large" else readHead cap buf reads

def readHttpHeadWithRemainder (cap : Nat) (reads : List Bytes) : Res Head := readHead cap [] reads

/-- The bytes up to the first blank line, or all of them. -/
def headOf (stream : Bytes) : Bytes :=
  match findSub headEnd stream with
  | some i => stream.take (i + 4)
  | none => stream

/-- The head that is read, as a function of the stream alone. -/
def cappedHead (cap : Nat) (stream : Bytes) : Res Bytes :=
  if (headOf stream).length ≤ cap then .ok (headOf stream) else .error "header too large"

variable {cap : Nat} {buf stream : Bytes} {reads : List Bytes}

theorem length_of_findSub {i} (h : findSub headEnd stream = some i) : i + 4 ≤ stream.length := by
  obtain ⟨_, hat, _⟩ := findSub_eq_some_iff.1 h
  have hle := hat.length_le
  have hlen : headEnd.length = 4 := rfl
  rw [length_drop] at hle
  omega

theorem cappedHead_of_some {i} (h : findSub headEnd stream = some i) :
    cappedHead cap stream = if i + 4 ≤ cap then .ok (stream.take (i + 4)) else .error "header too large" := by
  simp only [cappedHead, headOf, h, length_take, Nat.min_eq_left (length_of_findSub h)]

theorem cappedHead_of_none (h : findSub headEnd stream = none) :
    cappedHead cap stream = if stream.length ≤ cap then .ok stream else .error "header too large" := by
  simp only [cappedHead, headOf, h]

theorem length_headOf_le (stream : Bytes) : (headOf stream).length ≤ stream.length := by
  rw [headOf]
  split
  · exact length_take_le' _ _
  · exact Nat.le_refl _

/-- Where the reads are cut after `n` bytes: what came in one read with the last
of these, and the reads after it. -/
def cutReads : Nat → List Bytes → Bytes × List Bytes
  | _, [] => ([], [])
  | n, read :: reads => if n ≤ read.length then (read.drop n, reads) else cutReads (n - read.length) reads

theorem cutReads_length (hreads : ∀ r ∈ reads, r ≠ []) : cutReads reads.flatten.length reads = ([], []) := by
  induction reads with
  | nil => rfl
  | cons r reads ih =>
    rw [forall_mem_cons] at hreads
    rw [cutReads, flatten_cons, length_append]
    cases reads with
    | nil => simp
    | cons r' reads =>
      have hpos : 0 < r'.length := length_pos_iff.2 (hreads.2 r' mem_cons_self)
      have hmore : 0 < (r' :: reads).flatten.length := by
        rw [flatten_cons, length_append]
        omega
      rw [if_neg (by omega), Nat.add_sub_cancel_left]
      exact ih hreads.2

theorem cutReads_append {n} (hn : n ≤ reads.flatten.length) :
    (cutReads n reads).1 ++ (cutReads n reads).2.flatten = reads.flatten.drop n := by
  induction reads generalizing n with
  | nil => simp [cutReads]
  | cons r reads ih =>
    rw [flatten_cons, length_append] at hn
    rw [cutReads, flatten_cons]
    split
    · next hle => rw [drop_append_of_le_length hle]
    · next hlt =>
      rw [ih (by omega), drop_append, @drop_eq_nil_of_le _ r n (by omega), nil_append]

theorem cutReads_eq_nil_iff {n} (hpos : 0 < n) (hn : n ≤ reads.flatten.length) :
    (cutReads n reads).1 = [] ↔ ∃ k, (reads.take k).flatten.length = n := by
  induction reads generalizing n with
  | nil =>
    rw [flatten_nil, length_nil] at hn
    omega
  | cons r reads ih =>
    rw [flatten_cons, length_append] at hn
    rw [cutReads]
    have hsucc : ∀ k, ((r :: reads).take (k + 1)).flatten.length = r.length + (reads.take k).flatten.length := by
      intro k
      rw [take_succ_cons, flatten_cons, length_append]
    split
    · next hle =>
      rw [drop_eq_nil_iff]
      refine ⟨fun h => ⟨1, ?_⟩, fun ⟨k, hk⟩ => ?_⟩
      · rw [hsucc 0, take_zero, flatten_nil, length_nil]
        omega
      · cases k with
        | zero =>
          rw [take_zero, flatten_nil, length_nil] at hk
          omega
        | succ k =>
          rw [hsucc] at hk
          omega
    · next hlt =>
      rw [ih (by omega) (by omega)]
      refine ⟨fun ⟨k, hk⟩ => ⟨k + 1, ?_⟩, fun ⟨k, hk⟩ => ?_⟩
      · rw [hsucc]
        omega
      · cases k with
        | zero =>
          rw [take_zero, flatten_nil, length_nil] at hk
          omega
        | succ k =>
          rw [hsucc] at hk
          exact ⟨k, by omega⟩

/-- How the stream is cut into reads changes what comes along with the head,
never the head. -/
theorem readHead_eq (hreads : ∀ r ∈ reads, r ≠ []) (hbuf : findSub headEnd buf = none) (hlen : buf.length ≤ cap) :
    readHead cap buf reads = (cappedHead cap (buf ++ reads.flatten)).map fun head =>
      ⟨head, (cutReads (head.length - buf.length) reads).1, (cutReads (head.length - buf.length) reads).2⟩ := by
  have hend : headEnd.length = 4 := rfl
  induction reads generalizing buf with
  | nil =>
    rw [flatten_nil, append_nil, cappedHead_of_none hbuf, if_pos hlen]
    rfl
  | cons r reads ih =>
    rw [forall_mem_cons] at hreads
    rw [flatten_cons, ← append_assoc, readHead, if_neg hreads.1]
    have happend : (buf ++ r).length = buf.length + r.length := length_append
    cases hr : findSub headEnd (buf ++ r) with
    | some i =>
      simp only [hr]
      have hi := length_of_findSub hr
      have hlt := length_lt_of_findSub_append hbuf hr
      rw [cappedHead_of_some (findSub_append hr _)]
      by_cases hcap : i + 4 ≤ cap
      · have hdrop : (buf ++ r).drop (i + 4) = r.drop (i + 4 - buf.length) := by
          rw [drop_append, drop_eq_nil_of_le (by omega), nil_append]
        rw [if_pos hcap, if_neg (Nat.not_lt.2 hcap), take_append_of_le_length hi]
        dsimp only [Except.map]
        rw [length_take, Nat.min_eq_left hi, cutReads, if_pos (by omega), hdrop]
        rfl
      · rw [if_neg hcap, if_pos (Nat.lt_of_not_le hcap)]
        rfl
    | none =>
      simp only [hr]
      by_cases hcap : (buf ++ r).length > cap
      · rw [if_pos hcap]
        cases hfind : findSub headEnd (buf ++ r ++ reads.flatten) with
        | some i =>
          have hlt := length_lt_of_findSub_append hr hfind
          rw [cappedHead_of_some hfind, if_neg (by omega)]
          rfl
        | none =>
          rw [cappedHead_of_none hfind, if_neg (by rw [length_append]; omega)]
          rfl
      · rw [if_neg hcap, ih hreads.2 hr (by omega)]
        -- the head goes beyond this read, unless it was the last one
        cases hfind : findSub headEnd (buf ++ r ++ reads.flatten) with
        | some i =>
          have hlt := length_lt_of_findSub_append hr hfind
          have hi := length_of_findSub hfind
          rw [cappedHead_of_some hfind]
          split
          · dsimp only [Except.map]
            rw [length_take, Nat.min_eq_left hi, happend, cutReads, if_neg (by omega), Nat.sub_sub]
          · rfl
        | none =>
          have hall := cutReads_length hreads.2
          have hcons := cutReads_length (forall_mem_cons.2 hreads)
          rw [flatten_cons, length_append] at hcons
          rw [cappedHead_of_none hfind]
          split
          · dsimp only [Except.map]
            rw [length_append, Nat.add_sub_cancel_left, hall, happend, Nat.add_assoc, Nat.add_sub_cancel_left, hcons]
          · rfl

theorem readHttpHeadWithRemainder_eq (hreads : ∀ r ∈ reads, r ≠ []) :
    readHttpHeadWithRemainder cap reads = (cappedHead cap reads.flatten).map fun head =>
      ⟨head, (cutReads head.length reads).1, (cutReads head.length reads).2⟩ :=
  readHead_eq hreads rfl (Nat.zero_le cap)

theorem readHttpHead_of_some {i} (hreads : ∀ r ∈ reads, r ≠ []) (hfind : findSub headEnd reads.flatten = some i) :
    readHttpHeadWithRemainder cap reads =
      if i + 4 ≤ cap then .ok ⟨reads.flatten.take (i + 4), (cutReads (i + 4) reads).1, (cutReads (i + 4) reads).2⟩
      else .error "header too large" := by
  rw [readHttpHeadWithRemainder_eq hreads, cappedHead_of_some hfind]
  split
  · dsimp only [Except.map]
    rw [length_take, Nat.min_eq_left (length_of_findSub hfind)]
  · rfl

theorem readHttpHead_of_none (hreads : ∀ r ∈ reads, r ≠ []) (hfind : findSub headEnd reads.flatten = none) :
    readHttpHeadWithRemainder cap reads =
      if reads.flatten.length ≤ cap then .ok ⟨reads.flatten, [], []⟩ else .error "header too large" := by
  rw [readHttpHeadWithRemainder_eq hreads, cappedHead_of_none hfind]
  split
  · dsimp only [Except.map]
    rw [cutReads_length hreads]
  · rfl

/-- A head ends with the first blank line of its stream, or is the whole of a
stream that has none. -/
def IsHeadOf (stream head : Bytes) : Prop :=
  head <+: stream ∧
    ((headEnd <:+ head ∧ ∀ k < head.length, ¬ headEnd <:+: stream.take k) ∨ (head = stream ∧ ¬ headEnd <:+: stream))

theorem headEnd_ne_nil : headEnd ≠ [] := cons_ne_nil _ _

theorem isHeadOf_cappedHead {head} (h : cappedHead cap stream = .ok head) : IsHeadOf stream head := by
  cases hfind : findSub headEnd stream with
  | some i =>
    rw [cappedHead_of_some hfind] at h
    split at h
    · cases h
      obtain ⟨_, hat, _⟩ := findSub_eq_some_iff.1 hfind
      have hend : headEnd = (stream.drop i).take 4 := prefix_iff_eq_take.1 hat
      refine ⟨List.take_prefix _ _, .inl ⟨?_, fun k hk => ?_⟩⟩
      · rw [take_add, ← hend]
        exact suffix_append _ _
      · rw [← findSub_eq_none_iff headEnd_ne_nil]
        rw [length_take] at hk
        exact findSub_take_eq_none hfind (Nat.lt_of_lt_of_le hk (Nat.min_le_left _ _))
    · cases h
  | none =>
    rw [cappedHead_of_none hfind] at h
    split at h
    · cases h
      exact ⟨prefix_refl _, .inr ⟨rfl, (findSub_eq_none_iff headEnd_ne_nil).1 hfind⟩⟩
    · cases h

theorem cappedHead_eq_error_iff :
    (∃ e, cappedHead cap stream = .error e) ↔ ¬ headEnd <:+: stream.take cap ∧ cap < stream.length := by
  rw [← findSub_eq_none_iff headEnd_ne_nil]
  cases hfind : findSub headEnd stream with
  | some i =>
    have hle := length_of_findSub hfind
    have hlen : headEnd.length = 4 := rfl
    rw [cappedHead_of_some hfind]
    by_cases hcap : i + 4 ≤ cap
    · -- the blank line is within the cap, so it is found there too
      rw [findSub_take hfind (by omega), if_pos hcap]
      simp
    · rw [if_neg hcap]
      exact ⟨fun _ => ⟨findSub_take_eq_none hfind (by omega), by omega⟩, fun _ => ⟨_, rfl⟩⟩
  | none =>
    rw [cappedHead_of_none hfind]
    by_cases hcap : stream.length ≤ cap
    · rw [if_pos hcap]
      simp [Nat.not_lt.2 hcap]
    · rw [if_neg hcap]
      refine ⟨fun _ => ⟨?_, by omega⟩, fun _ => ⟨_, rfl⟩⟩
      rw [findSub_eq_none_iff headEnd_ne_nil] at hfind ⊢
      exact fun hwithin => hfind (hwithin.trans (List.take_prefix _ _).isInfix)

/-- A head ends with the first blank line whatever the reads are, nothing of
the stream is lost, and only one that is too long is refused. -/
theorem head_ends_with_first_blank_line {cap : Nat} {reads : List Bytes} (hreads : ∀ r ∈ reads, r ≠ []) :
    (∀ h, readHttpHeadWithRemainder cap reads = .ok h →
        IsHeadOf reads.flatten h.head ∧ h.head ++ h.remainder ++ h.unread.flatten = reads.flatten) ∧
      (∀ reads' : List Bytes, (∀ r ∈ reads', r ≠ []) → reads'.flatten = reads.flatten →
        (readHttpHeadWithRemainder cap reads').map Head.head = (readHttpHeadWithRemainder cap reads).map Head.head) ∧
      ((∃ e, readHttpHeadWithRemainder cap reads = .error e) ↔
        ¬ headEnd <:+: reads.flatten.take cap ∧ cap < reads.flatten.length) := by
  have hmap : ∀ {reads : List Bytes}, (∀ r ∈ reads, r ≠ []) →
      (readHttpHeadWithRemainder cap reads).map Head.head = cappedHead cap reads.flatten := by
    intro reads hreads
    rw [readHttpHeadWithRemainder_eq hreads]
    cases cappedHead cap reads.flatten <;> rfl
  refine ⟨fun h hok => ?_, fun reads' hreads' hsame => ?_, ?_⟩
  · rw [readHttpHeadWithRemainder_eq hreads] at hok
    obtain ⟨head, hhead, rfl⟩ := Res.map_eq_ok.1 hok
    obtain ⟨hstart, hrest⟩ := isHeadOf_cappedHead hhead
    refine ⟨⟨hstart, hrest⟩, ?_⟩
    rw [append_assoc, cutReads_append hstart.length_le, prefix_iff_eq_append.1 hstart]
  · rw [hmap hreads', hmap hreads, hsame]
  · rw [← cappedHead_eq_error_iff, ← hmap hreads]
    cases readHttpHeadWithRemainder cap reads with
    | ok h => exact ⟨fun ⟨e, he⟩ => (by cases he), fun ⟨e, he⟩ => (by cases he)⟩
    | error e => exact ⟨fun _ => ⟨e, rfl⟩, fun _ => ⟨e, rfl⟩⟩

/-- A blank line that two reads share. -/
theorem head_of_split_blank_line :
    IsHeadOf [71, 13, 10, 13, 10, 7] [71, 13, 10, 13, 10] :=
  ((@head_ends_with_first_blank_line 64 [[71, 13, 10, 13], [10, 7]] (by decide)).1
    ⟨[71, 13, 10, 13, 10], [7], []⟩ (by decide)).1

/-- `read_http_head`: the head with whatever came along, and what is unread. -/
def readHttpHead (cap : Nat) (reads : List Bytes) : Res (Bytes × List Bytes) := do
  let h ← readHttpHeadWithRemainder cap reads
  pure (h.head ++ h.remainder, h.unread)

def http2xx (head : Bytes) : Bool :=
  let line := head.take ((findSub crlf head).getD head.length)
  match (Str.splitWhitespace (fromUtf8Lossy line)).tail.head? with
  | some code => code.head? == some '2'
  | none => false

def hostOf (addr : Str) : Str :=
  match Str.rsplitOnce ':' addr with
  | some (h, _) => h
  | none => addr

end Rove.Util
