/-
Forwarding a request with an absolute target (`forward_http` of
`inbound/http.rs`): the head is written anew from the parsed one, and the body
is copied under the framing that the parser found.

Writes to the target are taken to succeed; one that fails ends the request.
-/
import Rove.Base.Source
import Rove.Inbound.HttpRequest

namespace Rove.Inbound

open List

/-! ## The head -/

/-- The headers that are never forwarded. -/
def hopHeaders : List Str :=
  ["host", "proxy-authorization", "proxy-connection", "connection", "keep-alive",
    "upgrade"]

/-- A header that is forwarded: neither one of a hop nor named in `Connection`. -/
def isForwarded (connectionTokens : List Str) (header : Header) : Bool :=
  let lower := Str.toAsciiLowercase header.name
  !(hopHeaders.contains lower || connectionTokens.contains lower)

def Header.line (header : Header) : Str := header.name ++ ':' :: ' ' :: header.value

/-- The lines `build_forward_head` writes. -/
def forwardLines (method version : Str) (headers : List Header) (connectionTokens : List Str)
    (originForm authority : Str) :
    List Str :=
  (method ++ ' ' :: (originForm ++ ' ' :: version)) :: Header.line ⟨"Host", authority⟩ ::
    ((headers.filter (isForwarded connectionTokens)).map Header.line ++ [Header.line ⟨"Connection", "close"⟩])

def buildForwardHead (method version : Str) (headers : List Header) (connectionTokens : List Str)
    (originForm authority : Str) : Bytes :=
  utf8Bytes (Str.joinCrlf (forwardLines method version headers connectionTokens originForm authority) ++ ['\r', '\n'])

/-! ## The body -/

/-- Copying a body: the client's stream and what was written to the target. -/
structure Copying (σ : Type) where
  source : σ
  sent : Bytes

/-- `u64::saturating_add`. -/
def satAdd64 (a b : Nat) : Nat := min (a + b) (2 ^ 64 - 1)

section Copy

variable {σ : Type} [Source σ]

open Source (read rest)

/-- The loop of `copy_exact_body`. -/
def copyExact (remaining : Nat) (c : Copying σ) : Res Unit × Copying σ :=
  if _h₀ : remaining = 0 then (.ok (), c)
  else
    let want := min remaining (32 * 1024)
    if _h : (read want c.source).1 = [] then
      (.error "request body ended before content length", { c with source := (read want c.source).2 })
    else copyExact (remaining - (read want c.source).1.length)
    ⟨(read want c.source).2, c.sent ++ (read want c.source).1⟩
termination_by remaining
decreasing_by exact Nat.sub_lt (Nat.pos_of_ne_zero _h₀) (length_pos_of_ne_nil _h)

def copyExactBody (length : Nat) (c : Copying σ) : Res Nat × Copying σ :=
  let (result, c) := copyExact length c
  (result.map fun _ => length, c)

/-- `read_crlf_line`, with room for so many more bytes. -/
def readCrlfLine : Nat → Bytes → σ → Res Bytes × σ
  | 0, _, s => (.error "chunk line too large", s)
  | room + 1, line, s =>
    match Source.readExact 1 s with
    | (none, s) => (.error "early eof", s)
    | (some byte, s) =>
      let line := line ++ byte
      if Util.crlf <:+ line then (.ok line, s) else readCrlfLine room line s

/-- The bytes a line of a chunked body may have. -/
def maxChunkLine : Nat := 8 * 1024

def chunkSize (line : Bytes) : Res Nat :=
  let text := (line.take (line.length - 2)).takeWhile (· ≠ 0x3b)
  match (fromUtf8 text).bind fun text => parseUnsigned 64 16 (Str.trim text) with
  | none => .error "invalid chunk size"
  | some size => .ok size

/-- The lines after the last chunk, up to an empty one. Each takes two bytes or
more, so that `fuel` may be the bytes left. -/
def copyTrailers : Nat → Nat → Copying σ → Res Nat × Copying σ
  | 0, _, c => (.error "early eof", c)
  | fuel + 1, total, c =>
    match readCrlfLine maxChunkLine [] c.source with
    | (.error e, s) => (.error e, { c with source := s })
    | (.ok trailer, s) =>
      let c : Copying σ := ⟨s, c.sent ++ trailer⟩
      let total := satAdd64 total trailer.length
      if trailer = Util.crlf then (.ok total, c) else copyTrailers fuel total c

/-- A chunk of `size` bytes after its first line, with what ends it. -/
def copyChunk (total size : Nat) (c : Copying σ) : Res Nat × Copying σ :=
  match copyExactBody size c with
  | (.error e, c) => (.error e, c)
  | (.ok copied, c) =>
    match Source.readExact 2 c.source with
    | (none, s) => (.error "early eof", { c with source := s })
    | (some terminator, s) =>
      if terminator = Util.crlf then (.ok (satAdd64 (satAdd64 total copied) 2), ⟨s, c.sent ++ terminator⟩)
      else (.error "chunk data missing CRLF", { c with source := s })

/-- The loop of `copy_chunked_body`. -/
def copyChunks : Nat → Nat → Copying σ → Res Nat × Copying σ
  | 0, _, c => (.error "early eof", c)
  | fuel + 1, total, c =>
    match readCrlfLine maxChunkLine [] c.source with
    | (.error e, s) => (.error e, { c with source := s })
    | (.ok line, s) =>
      match chunkSize line with
      | .error e => (.error e, { c with source := s })
      | .ok size =>
        let c : Copying σ := ⟨s, c.sent ++ line⟩
        let total := satAdd64 total line.length
        if size = 0 then copyTrailers fuel total c
        else
          match copyChunk total size c with
          | (.error e, c) => (.error e, c)
          | (.ok total, c) => copyChunks fuel total c

def copyChunkedBody (c : Copying σ) : Res Nat × Copying σ := copyChunks ((rest c.source).length + 1) 0 c

def copyRequestBody (body : RequestBody) (c : Copying σ) : Res Nat × Copying σ :=
  match body with
  | .none => (.ok 0, c)
  | .fixed length => copyExactBody length c
  | .chunked => copyChunkedBody c

/-! ## What is copied -/

/-- What was sent and what is left to read, one after the other. -/
def Copying.bytes (c : Copying σ) : Bytes := c.sent ++ rest c.source

/-- A body of known length is sent in full, unless the stream ends before it. -/
theorem copyExact_spec (n : Nat) (c : Copying σ) :
    (copyExact n c).1 =
        (if n ≤ (rest c.source).length then .ok () else .error "request body ended before content length") ∧
      (copyExact n c).2.sent = c.sent ++ (rest c.source).take n ∧
        rest (copyExact n c).2.source = (rest c.source).drop n := by
  induction n using Nat.strong_induction_on generalizing c with
  | _ n ih =>
    rw [copyExact]
    split
    · next h => simp [h]
    · next h =>
      dsimp only
      have hle := Source.length_read_le (min n (32 * 1024)) c.source
      have hsplit := Source.read_append_rest (min n (32 * 1024)) c.source
      split
      · next hnil =>
        have hrest := Source.rest_of_read_eq_nil _ c.source (by omega) hnil
        rw [hnil, hrest, nil_append] at hsplit
        rw [hrest, hsplit, if_neg (by simp; omega)]
        simp
      · next hne =>
        have hpos := length_pos_of_ne_nil hne
        obtain ⟨hresult, hsent, hleft⟩ := ih (n - (read (min n (32 * 1024)) c.source).1.length) (by omega)
          ⟨(read (min n (32 * 1024)) c.source).2, c.sent ++ (read (min n (32 * 1024)) c.source).1⟩
        rw [hresult, hsent, hleft]
        dsimp only
        have hn : (read (min n (32 * 1024)) c.source).1.length ≤ n := hle.trans (Nat.min_le_left _ _)
        generalize read (min n (32 * 1024)) c.source = r at *
        rw [← hsplit, take_append, drop_append, take_of_length_le hn, drop_of_length_le hn,
          append_assoc, length_append]
        refine ⟨if_congr ?_ rfl rfl, rfl, rfl⟩
        omega

theorem readCrlfLine_ok {room : Nat} {line out : Bytes} {s s' : σ} (h : readCrlfLine room line s = (.ok out, s')) :
    out ++ rest s' = line ++ rest s := by
  induction room generalizing line s with
  | zero => cases h
  | succ room ih =>
    rw [readCrlfLine] at h
    split at h
    · cases h
    · next byte s₁ hread =>
      have hbyte := Source.readExact_eq_some hread
      dsimp only at h
      split at h
      · obtain ⟨hout, rfl⟩ := Prod.mk.inj h
        rw [← Except.ok.inj hout, append_assoc, hbyte.1]
      · rw [ih h, append_assoc, hbyte.1]

theorem bytes_of_readCrlfLine {c : Copying σ} {line : Bytes} {s : σ}
    (h : readCrlfLine maxChunkLine [] c.source = (.ok line, s)) :
    Copying.bytes ⟨s, c.sent ++ line⟩ = c.bytes := by
  rw [Copying.bytes, append_assoc, readCrlfLine_ok h]
  rfl

theorem copyTrailers_bytes {fuel total n : Nat} {c c' : Copying σ} (h : copyTrailers fuel total c = (.ok n, c')) :
    c'.bytes = c.bytes := by
  induction fuel generalizing total c with
  | zero => cases h
  | succ fuel ih =>
    rw [copyTrailers] at h
    split at h
    · cases h
    · next trailer s hline =>
      have hbytes := bytes_of_readCrlfLine hline
      split at h
      · cases h
        exact hbytes
      · exact (ih h).trans hbytes

theorem copyExactBody_bytes {length n : Nat} {c c' : Copying σ} (h : copyExactBody length c = (.ok n, c')) :
    c'.bytes = c.bytes := by
  obtain ⟨-, hsent, hrest⟩ := copyExact_spec length c
  obtain ⟨-, rfl⟩ := Prod.mk.inj h
  rw [Copying.bytes, hsent, hrest, append_assoc, take_append_drop]
  rfl

theorem copyChunk_bytes {total size n : Nat} {c c' : Copying σ} (h : copyChunk total size c = (.ok n, c')) :
    c'.bytes = c.bytes := by
  rw [copyChunk] at h
  split at h
  · cases h
  · next copied c₁ hbody =>
    split at h
    · cases h
    · next terminator s hread =>
      split at h
      · cases h
        rw [Copying.bytes, append_assoc, (Source.readExact_eq_some hread).1]
        exact copyExactBody_bytes hbody
      · cases h

theorem copyChunks_bytes {fuel total n : Nat} {c c' : Copying σ} (h : copyChunks fuel total c = (.ok n, c')) :
    c'.bytes = c.bytes := by
  induction fuel generalizing total c with
  | zero => cases h
  | succ fuel ih =>
    rw [copyChunks] at h
    split at h
    · cases h
    · next line s hline =>
      have hbytes := bytes_of_readCrlfLine hline
      split at h
      · cases h
      · dsimp only at h
        split at h
        · exact (copyTrailers_bytes h).trans hbytes
        · split at h
          · cases h
          · next hchunk => exact (ih h).trans ((copyChunk_bytes hchunk).trans hbytes)

end Copy

end Rove.Inbound
