/-
What `copy_chunked_body` takes for a chunked body. A recipient's reading of the
grammar is the lines it has room for and the number a size stands for; a stream
begins with one body at most (`Chunked.agree`), and `copyChunkedBody_iff` says that
the loop copies the one that begins its stream, and stops behind it.

`forwarded_chunks_strict_iff` compares that with the grammar of HTTP/1.1, where a
size is hexadecimal digits and nothing else.
-/
import Rove.Inbound.Forward

namespace Rove.Inbound

open List
open Source (rest)
open Util (crlf)

/-! ## The grammar -/

/-- The content of a line: the first CRLF is the one that ends it. -/
def IsContent (content : Bytes) : Prop := findSub crlf (content ++ crlf) = some content.length

/-- How a recipient reads a chunked body. -/
structure Reading where
  /-- The lines there is room for. -/
  fits : Bytes → Prop
  /-- The number a size stands for. -/
  size : Bytes → Option Nat

def Reading.Line (r : Reading) (content : Bytes) : Prop := r.fits (content ++ crlf) ∧ IsContent content

/-- What stands before the extensions of a chunk. -/
def sizeText (content : Bytes) : Bytes := content.takeWhile (· ≠ 0x3b)

/-- The lines after the last chunk, and the empty one. -/
inductive Trailers (r : Reading) : Bytes → Prop
  | last : Trailers r crlf
  | field {content trailers : Bytes} : r.Line content → content ≠ [] → Trailers r trailers →
      Trailers r (content ++ crlf ++ trailers)

/-- A chunked body with the texts of its sizes. -/
inductive Chunked (r : Reading) : List Bytes → Bytes → Prop
  | last {content trailers : Bytes} : r.Line content → r.size (sizeText content) = some 0 → Trailers r trailers →
      Chunked r [sizeText content] (content ++ crlf ++ trailers)
  | chunk {content data body : Bytes} {sizes : List Bytes} : r.Line content →
      r.size (sizeText content) = some data.length → data ≠ [] → Chunked r sizes body →
      Chunked r (sizeText content :: sizes) (content ++ crlf ++ (data ++ crlf ++ body))

theorem isContent_nil : IsContent [] := rfl

theorem IsContent.agree {content content' after after'} (h : IsContent content) (h' : IsContent content')
    (heq : content ++ crlf ++ after = content' ++ crlf ++ after') : content = content' ∧ after = after' := by
  have hlen : content.length = content'.length := by
    have hfind := findSub_append h after
    rw [heq, findSub_append h' after'] at hfind
    exact (Option.some.inj hfind).symm
  rw [append_assoc, append_assoc] at heq
  obtain ⟨rfl, htail⟩ := append_inj heq hlen
  exact ⟨rfl, append_cancel_left htail⟩

variable {r r' : Reading}

theorem Trailers.agree {trailers trailers' after after'} (h : Trailers r trailers) (h' : Trailers r' trailers')
    (heq : trailers ++ after = trailers' ++ after') : trailers = trailers' := by
  induction h generalizing trailers' with
  | last =>
    cases h' with
    | last => rfl
    | field hline hne =>
      rw [append_assoc _ _ after'] at heq
      exact absurd (isContent_nil.agree hline.2 heq).1.symm hne
  | field hline hne _ ih =>
    cases h' with
    | last =>
      rw [append_assoc _ _ after] at heq
      exact absurd (hline.2.agree isContent_nil heq).1 hne
    | field hline' hne' htrailers' =>
      rw [append_assoc _ _ after, append_assoc _ _ after'] at heq
      obtain ⟨rfl, hrest⟩ := hline.2.agree hline'.2 heq
      rw [ih htrailers' hrest]

variable {sizes : List Bytes} {n : Nat} {text : Bytes}

/-- A stream begins with one chunked body at most, even under two readings, as long
as no size is a different number under each. -/
theorem Chunked.agree (hsize : ∀ {text : Bytes} {m n : Nat}, r.size text = some m → r'.size text = some n → m = n)
    {sizes' body body' after after'} (h : Chunked r sizes body) (h' : Chunked r' sizes' body')
    (heq : body ++ after = body' ++ after') : sizes = sizes' ∧ body = body' := by
  induction h generalizing sizes' body' with
  | last hline hzero htrailers =>
    cases h' with
    | last hline' hzero' htrailers' =>
      rw [append_assoc _ _ after, append_assoc _ _ after'] at heq
      obtain ⟨rfl, hrest⟩ := hline.2.agree hline'.2 heq
      rw [htrailers.agree htrailers' hrest]
      exact ⟨rfl, rfl⟩
    | chunk hline' hlength' hne' =>
      rw [append_assoc _ _ after, append_assoc _ _ after'] at heq
      obtain ⟨rfl, -⟩ := hline.2.agree hline'.2 heq
      exact absurd (length_eq_zero_iff.1 (hsize hzero hlength').symm) hne'
  | chunk hline hlength hne _ ih =>
    cases h' with
    | last hline' hzero' =>
      rw [append_assoc _ _ after, append_assoc _ _ after'] at heq
      obtain ⟨rfl, -⟩ := hline.2.agree hline'.2 heq
      exact absurd (length_eq_zero_iff.1 (hsize hlength hzero')) hne
    | chunk hline' hlength' hne' hbody' =>
      rw [append_assoc _ _ after, append_assoc _ _ after'] at heq
      obtain ⟨rfl, hrest⟩ := hline.2.agree hline'.2 heq
      simp only [append_assoc] at hrest
      obtain ⟨rfl, htail⟩ := append_inj hrest (hsize hlength hlength')
      obtain ⟨rfl, rfl⟩ := ih hbody' (append_cancel_left htail)
      exact ⟨rfl, rfl⟩

/-! ## The loop -/

/-- The size as the loop reads it, without the line. -/
def textSize (text : Bytes) : Option Nat := (fromUtf8 text).bind fun text => parseUnsigned 64 16 (Str.trim text)

/-- The reading of `copy_chunked_body`. -/
def taken : Reading := ⟨fun line => line.length ≤ maxChunkLine, textSize⟩

theorem chunkSize_eq_ok {content} :
    chunkSize (content ++ crlf) = .ok n ↔ textSize (sizeText content) = some n := by
  have hcontent : (content ++ crlf).take ((content ++ crlf).length - 2) = content := by
    rw [length_append]
    exact take_left' rfl
  have htext : (fromUtf8 (content.takeWhile (· ≠ 0x3b))).bind (fun text => parseUnsigned 64 16 (Str.trim text)) =
      textSize (sizeText content) := rfl
  rw [chunkSize, hcontent, htext]
  cases textSize (sizeText content) <;> simp

section
variable {σ : Type} [Source σ]

/-- `read_crlf_line` returns the line that begins the stream, if there is room for it. -/
theorem readCrlfLine_eq_ok {room : Nat} {line out : Bytes} {s s' : σ} (hline : findSub crlf line = none)
    (h : readCrlfLine room line s = (.ok out, s')) :
    ∃ content, out = content ++ crlf ∧ IsContent content ∧ out.length ≤ line.length + room := by
  induction room generalizing line s with
  | zero => cases h
  | succ room ih =>
    rw [readCrlfLine] at h
    split at h
    · cases h
    · next byte s₁ hread =>
      obtain ⟨b, rfl⟩ := length_eq_one_iff.1 (Source.readExact_eq_some hread).2
      have hnext := findSub_concat hline b
      dsimp only at h
      split at h
      · next hsuffix =>
        obtain ⟨hout, -⟩ := Prod.mk.inj h
        cases hout
        obtain ⟨content, hcontent⟩ := hsuffix
        have hlen := congrArg List.length hcontent
        rw [length_append, length_append] at hlen
        rw [if_pos ⟨by decide, content, hcontent⟩, ← hcontent] at hnext
        refine ⟨content, hcontent.symm, hnext.trans (congrArg some ?_), ?_⟩
        · have hcrlf : crlf.length = 2 := rfl
          simp only [length_cons, length_nil, hcrlf] at hlen ⊢
          omega
        · simp only [length_append, length_cons, length_nil]
          omega
      · next hsuffix =>
        rw [if_neg fun hend => hsuffix hend.2] at hnext
        obtain ⟨content, hout, hcontent, hlen⟩ := ih hnext h
        refine ⟨content, hout, hcontent, ?_⟩
        simp only [length_append, length_cons, length_nil] at hlen
        omega

theorem exists_readCrlfLine {room : Nat} {line content after : Bytes} {s : σ} (hline : findSub crlf line = none)
    (hcontent : IsContent content) (hrest : line ++ rest s = content ++ crlf ++ after)
    (hroom : (content ++ crlf).length ≤ line.length + room) :
    ∃ s', readCrlfLine room line s = (.ok (content ++ crlf), s') ∧ rest s' = after := by
  induction room generalizing line s with
  | zero =>
    have hlt := length_lt_of_findSub_append hline (hrest ▸ findSub_append hcontent after)
    rw [length_append] at hroom
    omega
  | succ room ih =>
    have hlt := length_lt_of_findSub_append hline (hrest ▸ findSub_append hcontent after)
    have hlen := congrArg List.length hrest
    simp only [length_append] at hlen hroom
    obtain ⟨s₁, hread, hs₁⟩ := @Source.readExact_of_le _ _ 1 s (by omega)
    obtain ⟨b, hb⟩ := length_eq_one_iff.1 (Source.readExact_eq_some hread).2
    have hsplit := (Source.readExact_eq_some hread).1
    rw [hb] at hread hsplit
    have hrest' : (line ++ [b]) ++ rest s₁ = content ++ crlf ++ after := by rw [append_assoc, hsplit, hrest]
    have hnext := findSub_concat hline b
    rw [readCrlfLine, hread]
    dsimp only
    split
    · next hsuffix =>
      rw [if_pos ⟨by decide, hsuffix⟩] at hnext
      have hwhole := findSub_append hnext (rest s₁)
      rw [hrest', findSub_append hcontent after] at hwhole
      have hend : (line ++ [b]).length = (content ++ crlf).length := by
        have hstart := Option.some.inj hwhole
        have hle := hsuffix.length_le
        simp only [length_append, length_cons, length_nil] at hle ⊢
        omega
      obtain ⟨hout, hafter⟩ := append_inj hrest' hend
      exact ⟨s₁, by rw [hout], hafter⟩
    · next hsuffix =>
      rw [if_neg fun hend => hsuffix hend.2] at hnext
      exact ih hnext hrest' (by simp only [length_append, length_cons, length_nil]; omega)

/-! ## What is copied -/

variable {c : Copying σ}

theorem exists_readLine {content after : Bytes} (hline : taken.Line content)
    (hrest : rest c.source = content ++ crlf ++ after) :
    ∃ s', readCrlfLine maxChunkLine [] c.source = (.ok (content ++ crlf), s') ∧ rest s' = after :=
  exists_readCrlfLine rfl hline.2 hrest (Nat.le_add_left_of_le hline.1)

theorem copyTrailers_eq_ok {fuel total n : Nat} {c' : Copying σ} (h : copyTrailers fuel total c = (.ok n, c')) :
    ∃ trailers, Trailers taken trailers ∧ c'.sent = c.sent ++ trailers := by
  induction fuel generalizing total c with
  | zero => cases h
  | succ fuel ih =>
    rw [copyTrailers] at h
    split at h
    · cases h
    · next trailer s hread =>
      obtain ⟨content, rfl, hcontent, hlen⟩ := readCrlfLine_eq_ok rfl hread
      split at h
      · next hlast =>
        cases h
        exact ⟨crlf, .last, by rw [hlast]⟩
      · next hlast =>
        obtain ⟨trailers, htrailers, hsent⟩ := ih h
        have hne : content ≠ [] := by
          rintro rfl
          exact hlast rfl
        exact ⟨content ++ crlf ++ trailers, .field ⟨hlen, hcontent⟩ hne htrailers, by rw [hsent, append_assoc]⟩

theorem copyChunk_eq_ok {total size n c'} (h : copyChunk total size c = (.ok n, c')) :
    ∃ data, data.length = size ∧ c'.sent = c.sent ++ (data ++ crlf) := by
  rw [copyChunk] at h
  split at h
  · cases h
  · next copied c₁ hbody =>
    obtain ⟨hresult, hsent, -⟩ := copyExact_spec size c
    obtain ⟨hok, rfl⟩ := Prod.mk.inj hbody
    split at h
    · cases h
    · next terminator s hread =>
      split at h
      · next hterminator =>
        cases h
        split at hresult
        · next hle =>
          refine ⟨(rest c.source).take size, by rw [length_take, Nat.min_eq_left hle], ?_⟩
          rw [hsent, hterminator, append_assoc]
        · rw [hresult] at hok
          cases hok
      · cases h

theorem copyChunks_eq_ok {fuel total n : Nat} {c' : Copying σ} (h : copyChunks fuel total c = (.ok n, c')) :
    ∃ sizes body, Chunked taken sizes body ∧ c'.sent = c.sent ++ body := by
  induction fuel generalizing total c with
  | zero => cases h
  | succ fuel ih =>
    rw [copyChunks] at h
    split at h
    · cases h
    · next line s hread =>
      obtain ⟨content, rfl, hcontent, hlen⟩ := readCrlfLine_eq_ok rfl hread
      split at h
      · cases h
      · next size hsize =>
        rw [chunkSize_eq_ok] at hsize
        dsimp only at h
        split at h
        · next hzero =>
          subst hzero
          obtain ⟨trailers, htrailers, hsent⟩ := copyTrailers_eq_ok h
          exact ⟨_, _, .last ⟨hlen, hcontent⟩ hsize htrailers, by rw [hsent, append_assoc]⟩
        · next hzero =>
          split at h
          · cases h
          · next hchunk =>
            obtain ⟨data, rfl, hdata⟩ := copyChunk_eq_ok hchunk
            obtain ⟨sizes, body, hbody, hsent⟩ := ih h
            have hne : data ≠ [] := by
              rintro rfl
              exact hzero rfl
            refine ⟨_, _, .chunk ⟨hlen, hcontent⟩ hsize hne hbody, ?_⟩
            rw [hsent, hdata]
            simp only [append_assoc]

theorem exists_copyTrailers {trailers : Bytes} (h : Trailers taken trailers) {fuel : Nat} (total : Nat)
    {after : Bytes} (hrest : rest c.source = trailers ++ after) (hfuel : trailers.length ≤ fuel) :
    ∃ n c', copyTrailers fuel total c = (.ok n, c') := by
  have hcrlf : crlf.length = 2 := rfl
  induction h generalizing fuel total c with
  | last =>
    obtain ⟨fuel, rfl⟩ := Nat.exists_eq_add_one_of_ne_zero (show fuel ≠ 0 by omega)
    obtain ⟨s, hread, -⟩ := @exists_readCrlfLine _ _ maxChunkLine []
      [] after c.source rfl isContent_nil hrest (by decide)
    rw [copyTrailers, hread]
    exact ⟨_, _, if_pos rfl⟩
  | @field content trailers hline hne _ ih =>
    rw [append_assoc] at hrest
    rw [length_append, length_append, hcrlf] at hfuel
    obtain ⟨fuel, rfl⟩ := Nat.exists_eq_add_one_of_ne_zero (show fuel ≠ 0 by omega)
    obtain ⟨s, hread, hs⟩ := exists_readLine hline hrest
    have hlast : content ++ crlf ≠ crlf := fun heq => hne (append_left_eq_self.1 heq)
    rw [copyTrailers, hread]
    dsimp only
    rw [if_neg hlast]
    exact ih _ hs (by omega)

theorem exists_copyChunk {data after} (total : Nat) (hrest : rest c.source = data ++ (crlf ++ after)) :
    ∃ n c', copyChunk total data.length c = (.ok n, c') ∧ rest c'.source = after := by
  obtain ⟨hresult, -, hleft⟩ := copyExact_spec data.length c
  rw [hrest, drop_left] at hleft
  rw [if_pos (by rw [hrest, length_append]; omega)] at hresult
  have hcopied : copyExactBody data.length c = (.ok data.length, (copyExact data.length c).2) :=
    Prod.ext (congrArg (Except.map fun _ => data.length) hresult) rfl
  obtain ⟨s, hread, hs⟩ := @Source.readExact_of_le _ _ 2 (copyExact data.length c).2.source (by
    rw [hleft, length_append]
    exact Nat.le_add_right 2 _)
  have hterminator : (crlf ++ after).take 2 = crlf := take_left' rfl
  rw [hleft, hterminator] at hread
  rw [hleft] at hs
  rw [copyChunk, hcopied]
  dsimp only
  rw [hread]
  exact ⟨_, _, if_pos rfl, hs.trans (drop_left' rfl)⟩

theorem exists_copyChunks {sizes : List Bytes} {body : Bytes} (h : Chunked taken sizes body) {fuel : Nat} (total : Nat)
    {after : Bytes} (hrest : rest c.source = body ++ after) (hfuel : body.length ≤ fuel) :
    ∃ n c', copyChunks fuel total c = (.ok n, c') := by
  have hcrlf : crlf.length = 2 := rfl
  induction h generalizing fuel total c with
  | @last content trailers hline hzero htrailers =>
    rw [append_assoc] at hrest
    rw [length_append, length_append, hcrlf] at hfuel
    obtain ⟨fuel, rfl⟩ := Nat.exists_eq_add_one_of_ne_zero (show fuel ≠ 0 by omega)
    obtain ⟨s, hread, hs⟩ := exists_readLine hline hrest
    rw [copyChunks, hread]
    dsimp only
    rw [chunkSize_eq_ok.2 hzero]
    exact exists_copyTrailers htrailers _ hs (by omega)
  | @chunk content data body sizes hline hlength hne _ ih =>
    rw [append_assoc] at hrest
    simp only [length_append, hcrlf] at hfuel
    obtain ⟨fuel, rfl⟩ := Nat.exists_eq_add_one_of_ne_zero (show fuel ≠ 0 by omega)
    obtain ⟨s, hread, hs⟩ := exists_readLine hline hrest
    rw [append_assoc, append_assoc] at hs
    rw [copyChunks, hread]
    dsimp only
    rw [chunkSize_eq_ok.2 hlength]
    dsimp only
    rw [if_neg (length_pos_of_ne_nil hne).ne']
    obtain ⟨n, c', hchunk, hc'⟩ := exists_copyChunk (satAdd64 total (content ++ crlf).length)
      (c := (⟨s, c.sent ++ (content ++ crlf)⟩ : Copying σ)) hs
    rw [hchunk]
    exact ih n hc' (by omega)

/-- The loop succeeds on a stream that begins with a body it takes, and on no
other; it has then sent that body, and not read beyond it. -/
theorem copyChunkedBody_iff (c : Copying σ) :
    ((∃ n c', copyChunkedBody c = (.ok n, c')) ↔ ∃ sizes body after, Chunked taken sizes body ∧
      rest c.source = body ++ after) ∧ ∀ n c', copyChunkedBody c = (.ok n, c') →
        ∃ sizes body, Chunked taken sizes body ∧ c'.sent = c.sent ++ body ∧ rest c.source = body ++ rest c'.source := by
  have hsent : ∀ n c', copyChunkedBody c = (.ok n, c') →
      ∃ sizes body, Chunked taken sizes body ∧ c'.sent = c.sent ++ body ∧ rest c.source = body ++ rest c'.source := by
    intro n c' h
    obtain ⟨sizes, body, hbody, hsent⟩ := copyChunks_eq_ok h
    have hbytes := copyChunks_bytes h
    rw [Copying.bytes, Copying.bytes, hsent, append_assoc] at hbytes
    exact ⟨sizes, body, hbody, hsent, (append_cancel_left hbytes).symm⟩
  refine ⟨⟨?_, ?_⟩, hsent⟩
  · rintro ⟨n, c', h⟩
    obtain ⟨sizes, body, hbody, -, hrest⟩ := hsent n c' h
    exact ⟨sizes, body, _, hbody, hrest⟩
  · rintro ⟨sizes, body, after, hbody, hrest⟩
    exact exists_copyChunks hbody 0 hrest (by rw [hrest, length_append]; omega)

end

/-! ## Against HTTP/1.1 -/

/-- The size of a chunk in HTTP/1.1: one hexadecimal digit or more. -/
def strictSize (text : Bytes) : Option Nat :=
  (fromUtf8 text).bind fun text => if text = [] then none else ofDigits 16 0 text

def strict : Reading := ⟨fun _ => True, strictSize⟩

def StrictBody (body : Bytes) : Prop := ∃ sizes, Chunked strict sizes body

def Plain (text : Bytes) : Prop := ∀ t, text = utf8Bytes t → ∀ c ∈ t, c ≠ '+' ∧ Str.isWhitespace c = false

/-- The chunk sizes of the body that begins a stream, if one does, are plain. -/
def PlainSizes (stream : Bytes) : Prop :=
  ∀ sizes body after, Chunked taken sizes body → stream = body ++ after → ∀ text ∈ sizes, Plain text

theorem strictSize_eq_some :
    strictSize text = some n ↔ ∃ t, text = utf8Bytes t ∧ t ≠ [] ∧ ofDigits 16 0 t = some n := by
  rw [strictSize, Option.bind_eq_some_iff]
  refine exists_congr fun t => ?_
  rw [fromUtf8_eq_some_iff, Option.ite_none_left_eq_some]

theorem textSize_eq_some :
    textSize text = some n ↔ ∃ t, text = utf8Bytes t ∧ parseUnsigned 64 16 (Str.trim t) = some n := by
  rw [textSize, Option.bind_eq_some_iff]
  exact exists_congr fun t => and_congr_left' fromUtf8_eq_some_iff

theorem trim_of_plain {t} (h : ∀ c ∈ t, Str.isWhitespace c = false) : Str.trim t = t :=
  Str.trimBy_eq_self (fun c hc => h c (mem_of_head? hc)) fun c hc => h c (mem_of_getLast? hc)

theorem plain_of_strictSize (h : strictSize text = some n) : Plain text := by
  obtain ⟨t, rfl, -, hdigits⟩ := strictSize_eq_some.1 h
  intro t' ht c hc
  obtain rfl := utf8Bytes_injective ht
  have hdigit := isDigitOf_of_ofDigits hdigits c hc
  refine ⟨?_, isWhitespace_of_isDigitOf hdigit⟩
  rintro rfl
  cases hdigit

theorem eq_of_textSize {m} (hm : strictSize text = some m) (hn : textSize text = some n) : m = n := by
  have hplain := plain_of_strictSize hm
  obtain ⟨t, rfl, -, hdigits⟩ := strictSize_eq_some.1 hm
  obtain ⟨t', ht, hparse⟩ := textSize_eq_some.1 hn
  obtain rfl := utf8Bytes_injective ht
  rw [trim_of_plain fun c hc => (hplain t rfl c hc).2] at hparse
  exact (eq_of_parseUnsigned hparse hdigits).symm

theorem strictSize_of_plain (h : textSize text = some n) (hplain : Plain text) :
    strictSize text = some n := by
  obtain ⟨t, rfl, hparse⟩ := textSize_eq_some.1 h
  rw [trim_of_plain fun c hc => (hplain t rfl c hc).2] at hparse
  obtain ⟨hdigits, hne, -⟩ := parseUnsigned_eq_some hparse
  rw [stripPlus_of_head fun hplus => (hplain t rfl '+' (mem_of_head? hplus)).1 rfl] at hdigits hne
  exact strictSize_eq_some.2 ⟨t, rfl, hne, hdigits⟩

theorem Trailers.strict {trailers} (h : Trailers taken trailers) : Trailers strict trailers := by
  induction h with
  | last => exact .last
  | field hline hne _ ih => exact .field ⟨trivial, hline.2⟩ hne ih

theorem Chunked.strict {body} (h : Chunked taken sizes body) (hplain : ∀ text ∈ sizes, Plain text) :
    Chunked strict sizes body := by
  induction h with
  | last hline hzero htrailers =>
    rw [forall_mem_singleton] at hplain
    exact .last ⟨trivial, hline.2⟩ (strictSize_of_plain hzero hplain) htrailers.strict
  | chunk hline hlength hne _ ih =>
    rw [forall_mem_cons] at hplain
    exact .chunk ⟨trivial, hline.2⟩ (strictSize_of_plain hlength hplain.1) hne (ih hplain.2)

theorem Chunked.plain {body} (h : Chunked Inbound.strict sizes body) : ∀ text ∈ sizes, Plain text := by
  induction h with
  | last _ hzero _ => exact forall_mem_singleton.2 (plain_of_strictSize hzero)
  | chunk _ hlength _ _ ih => exact forall_mem_cons.2 ⟨plain_of_strictSize hlength, ih⟩

/-- A body that was copied to its end is one chunked body of HTTP/1.1, and the
client's stream goes on right behind it, if and only if no size of the stream's
body has a sign or white space. -/
theorem forwarded_chunks_strict_iff {σ : Type} [Source σ] (c : Copying σ) :
    (∀ n c', copyChunkedBody c = (.ok n, c') →
        ∃ body, c'.sent = c.sent ++ body ∧ rest c.source = body ++ rest c'.source ∧ StrictBody body) ↔
      PlainSizes (rest c.source) := by
  obtain ⟨hiff, hsent⟩ := copyChunkedBody_iff c
  constructor
  · intro hstrict sizes body after hbody hrest
    obtain ⟨n, c', hcopy⟩ := hiff.2 ⟨sizes, body, after, hbody, hrest⟩
    obtain ⟨body', -, hrest', sizes', hbody'⟩ := hstrict n c' hcopy
    obtain ⟨rfl, -⟩ := hbody'.agree eq_of_textSize hbody (hrest'.symm.trans hrest)
    exact hbody'.plain
  · intro hplain n c' hcopy
    obtain ⟨sizes, body, hbody, hbytes, hrest⟩ := hsent n c' hcopy
    exact ⟨body, hbytes, hrest, sizes, hbody.strict (hplain sizes body _ hbody hrest)⟩

/-- A body of the one byte `x`. -/
def oneByteBody (size : Bytes) : Bytes := size ++ crlf ++ ([120] ++ crlf ++ ([48] ++ crlf ++ crlf))

theorem chunked_oneByteBody {size} (hline : taken.Line size) (hsize : textSize (sizeText size) = some 1) :
    Chunked taken [sizeText size, [48]] (oneByteBody size) := by
  have hlast : taken.Line [48] := ⟨show ([48] ++ crlf).length ≤ maxChunkLine by decide, rfl⟩
  have hzero : textSize (sizeText [48]) = some 0 := by decide +kernel
  exact .chunk hline hsize (cons_ne_nil 120 []) (.last hlast hzero .last)

/-- A size of one that the loop takes and the grammar does not have: the body is
forwarded as it came. -/
theorem oneByteBody_forwarded {size} (hcontent : IsContent (utf8Bytes size))
    (hfits : (utf8Bytes size ++ crlf).length ≤ maxChunkLine) (htext : sizeText (utf8Bytes size) = utf8Bytes size)
    (hsize : textSize (utf8Bytes size) = some 1) (hplain : ¬ Plain (utf8Bytes size)) :
    (∃ n c', copyChunkedBody (⟨[oneByteBody (utf8Bytes size)], []⟩ : Copying (List Bytes)) = (.ok n, c') ∧
        c'.sent = oneByteBody (utf8Bytes size)) ∧
      ¬ StrictBody (oneByteBody (utf8Bytes size)) := by
  have hbody := chunked_oneByteBody ⟨hfits, hcontent⟩ (htext.symm ▸ hsize)
  rw [htext] at hbody
  obtain ⟨hiff, hsent⟩ := copyChunkedBody_iff (⟨[oneByteBody (utf8Bytes size)], []⟩ : Copying (List Bytes))
  constructor
  · obtain ⟨n, c', hcopy⟩ := hiff.2 ⟨_, _, [], hbody, rfl⟩
    obtain ⟨sizes, body', hbody', hbytes, hrest⟩ := hsent n c' hcopy
    have hagree := hbody'.agree (fun hm hn => Option.some.inj (hm.symm.trans hn)) hbody
      (hrest.symm.trans (show rest [oneByteBody (utf8Bytes size)] = oneByteBody (utf8Bytes size) ++ [] from rfl))
    exact ⟨n, c', hcopy, by rw [hbytes, hagree.2]; rfl⟩
  · intro hstrict
    obtain ⟨sizes, hstrict⟩ := hstrict
    obtain ⟨rfl, -⟩ := hstrict.agree eq_of_textSize hbody (rfl : oneByteBody (utf8Bytes size) ++ [] = _)
    exact hplain (hstrict.plain (utf8Bytes size) mem_cons_self)

/-- A size with a plus sign, and one with a blank before it, are taken and
forwarded as they came. -/
theorem signed_chunk_forwarded :
    ((∃ n c', copyChunkedBody (⟨[oneByteBody (utf8Bytes "+1")], []⟩ : Copying (List Bytes)) = (.ok n, c') ∧
        c'.sent = oneByteBody (utf8Bytes "+1")) ∧
      ¬ StrictBody (oneByteBody (utf8Bytes "+1"))) ∧
    (∃ n c', copyChunkedBody (⟨[oneByteBody (utf8Bytes " 1")], []⟩ : Copying (List Bytes)) = (.ok n, c') ∧
        c'.sent = oneByteBody (utf8Bytes " 1")) ∧
      ¬ StrictBody (oneByteBody (utf8Bytes " 1")) := by
  constructor
  · refine oneByteBody_forwarded (by unfold IsContent; decide +kernel) (by decide +kernel) (by decide +kernel)
      (by decide +kernel) fun hplain => ?_
    exact (hplain _ rfl '+' (by decide)).1 rfl
  · refine oneByteBody_forwarded (by unfold IsContent; decide +kernel) (by decide +kernel) (by decide +kernel)
      (by decide +kernel) fun hplain => ?_
    exact absurd (hplain _ rfl ' ' (by decide)).2 (by decide)

end Rove.Inbound
