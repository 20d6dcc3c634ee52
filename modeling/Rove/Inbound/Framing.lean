/-
Where a forwarded request ends. The body is read under the framing that
`parse_request_body` finds in trimmed and filtered header values, and the
headers themselves are forwarded as they came; `forwarded_framing_iff` says for
which of them the head that is written names one framing, the one that was used.

The head is read back the way an origin server does: fields up to the first
blank line, values without the white space around them.
-/
import Rove.Inbound.Forward

namespace Rove.Inbound

open List

/-! ## The head as a server reads it -/

/-- White space that may stand around a field value: a space or a tab. -/
def isOws (c : Char) : Bool := c == ' ' || c == '\t'

def fieldOf (line : Str) : Header :=
  match Str.splitOnce ':' line with
  | some (name, value) => ⟨name, Str.trimBy isOws value⟩
  | none => ⟨line, []⟩

/-- The fields of a head, without its first line. -/
def fieldsOf (head : Bytes) : List Header :=
  match fromUtf8 head with
  | none => []
  | some text => (Str.headLines text).tail.map fieldOf

/-- The version in a head's first line: what stands after the last space. -/
def versionOf (head : Bytes) : Str :=
  match fromUtf8 head with
  | none => []
  | some text => ((Str.headLines text).headD []).rtakeWhile (· ≠ ' ')

/-- The transfer codings that are named, in lower case. -/
def codingsOf (values : List Str) : List Str :=
  ((values.flatMap (·.splitOn ',')).map fun coding => Str.toAsciiLowercase (Str.trimBy isOws coding)).filter (· ≠ [])

/-- A head has no transfer coding: there is no field for one, or HTTP/1.0 is
spoken, which does not know any. -/
def Uncoded (version : Str) (fields : List Header) : Prop :=
  valuesOf "transfer-encoding" fields = [] ∨ version = "HTTP/1.0"

/-- The bodies a server may find after a head, by the rules of its version: in
HTTP/1.1 one that is chunked where that is the last coding; without any coding one
of the length given, and none where there is no length. Any other head is refused. -/
inductive ServerBody (version : Str) (fields : List Header) : RequestBody → Prop where
  | chunked (hversion : version = "HTTP/1.1")
    (h : (codingsOf (valuesOf "transfer-encoding" fields)).getLast? = some "chunked".toList) :
    ServerBody version fields .chunked
  | sized (n : Nat) (hcoding : Uncoded version fields) (hsome : valuesOf "content-length" fields ≠ [])
    (h : ∀ v ∈ valuesOf "content-length" fields, v ≠ [] ∧ ofDigits 10 0 v = some n) :
    ServerBody version fields (if n = 0 then .none else .fixed n)
  | none (hcoding : Uncoded version fields) (h : valuesOf "content-length" fields = []) :
    ServerBody version fields .none

/-- A body of so many bytes is forwarded, of every client that sends them. -/
def RequestBody.Forwards (body : RequestBody) (n : Nat) : Prop :=
  ∀ (σ : Type) [Source σ] (c : Copying σ),
    ((copyRequestBody body c).1.isOk = true ↔ n ≤ (Source.rest c.source).length) ∧
      (copyRequestBody body c).2.sent = c.sent ++ (Source.rest c.source).take n

/-- The head names one framing, and the one the body is copied under. -/
structure SameFraming (head : Bytes) (body : RequestBody) : Prop where
  one : ¬ (valuesOf "content-length" (fieldsOf head) ≠ [] ∧ valuesOf "transfer-encoding" (fieldsOf head) ≠ [])
  chunked : valuesOf "transfer-encoding" (fieldsOf head) ≠ [] ↔ body = .chunked
  sized : ∀ n, body = .fixed n → valuesOf "content-length" (fieldsOf head) ≠ []
  length : ∀ v ∈ valuesOf "content-length" (fieldsOf head), v ≠ [] ∧ ∃ n, ofDigits 10 0 v = some n ∧ body.Forwards n
  server : ∀ found, ServerBody (versionOf head) (fieldsOf head) found → found = body

/-- A URL's parts are without line breaks, as the `url` crate writes them. -/
def UrlsOneLine (parseUrl : Str → Option Url) : Prop :=
  ∀ target url, parseUrl target = some url →
    '\n' ∉ url.path ∧ (∀ query, url.query = some query → '\n' ∉ query) ∧ ∀ host, url.host = some host → '\n' ∉ host

/-! ## Reading a forwarded head back -/

structure Header.Kept (header : Header) : Prop where
  colon : ':' ∉ header.name
  name : header.name ≠ []
  nameLine : '\n' ∉ header.name
  valueLine : '\n' ∉ header.value
  trimmed : Str.trim header.value = header.value

theorem not_mem_of_utf8Bytes {s c} (hc : c.toNat < 128) (h : UInt8.ofNat c.toNat ∉ utf8Bytes s) : c ∉ s := by
  intro hmem
  refine h (mem_flatMap.2 ⟨c, hmem, ?_⟩)
  rw [encode_ascii hc]
  exact mem_singleton_self _

theorem kept_of_isHeaderLine {line} (h : IsHeaderLine line) : (headerOf line).Kept := by
  obtain ⟨-, -, hcolon, hname, hvalue⟩ := h
  obtain ⟨name, value, -, hnot, hsplit⟩ := Str.exists_splitOnce hcolon
  rw [headerOf, hsplit] at hname hvalue ⊢
  rw [validHeaderName, Bool.and_eq_true, decide_eq_true_eq, all_eq_true] at hname
  rw [all_eq_true] at hvalue
  refine ⟨hnot, hname.1, not_mem_of_utf8Bytes (by decide) fun hmem => ?_,
    not_mem_of_utf8Bytes (by decide) fun hmem => ?_, Str.trim_trim value⟩
  · exact absurd (hname.2 _ hmem) (by decide)
  · exact absurd (hvalue _ hmem) (by decide)

theorem fieldOf_line {name} (hcolon : ':' ∉ name) (value : Str) :
    fieldOf (Header.line ⟨name, value⟩) = ⟨name, Str.trimBy isOws value⟩ := by
  rw [fieldOf, Header.line, Str.splitOnce_append _ hcolon]
  rfl

theorem isOws_of_not_isWhitespace {c} (h : Str.isWhitespace c = false) : isOws c = false := by
  rw [isOws, Bool.or_eq_false_iff, beq_eq_false_iff_ne, beq_eq_false_iff_ne]
  constructor
  · rintro rfl
    cases h
  · rintro rfl
    cases h

theorem Header.Kept.fieldOf_line {header} (h : header.Kept) : fieldOf header.line = header := by
  rw [Inbound.fieldOf_line h.colon]
  have hself : Str.trimBy isOws header.value = header.value := by
    rw [← h.trimmed]
    exact Str.trimBy_eq_self (fun c hc => isOws_of_not_isWhitespace (Str.head?_trimBy hc))
      fun c hc => isOws_of_not_isWhitespace (Str.getLast?_rdropWhile hc)
  rw [hself]

theorem Header.Kept.line {header : Header} (h : header.Kept) : Str.IsLine header.line ∧ header.line ≠ [] := by
  refine ⟨Str.isLine_of_not_mem ?_, by simp [Header.line]⟩
  have hname := h.nameLine
  have hvalue := h.valueLine
  simp [Header.line, hname, hvalue]

/-- What the parser makes sure of in a request that is forwarded. -/
structure Forwardable (request : ParsedRequest) (originForm authority : Str) : Prop where
  headers : ∀ header ∈ request.headers, header.Kept
  method : '\n' ∉ request.method
  version : request.version = "HTTP/1.0" ∨ request.version = "HTTP/1.1"
  originForm : '\n' ∉ originForm
  authority : '\n' ∉ authority
  tokens : "content-length".toList ∉ request.connectionTokens ∧ "transfer-encoding".toList ∉ request.connectionTokens
  body : parseRequestBody request.method request.headers = .ok request.body

theorem not_mem_formatAuthority {host} (h : '\n' ∉ host) (port : Nat) : '\n' ∉ formatAuthority host port := by
  have hport : '\n' ∉ showNat port := fun hmem => absurd (isDigit_of_mem_showNat hmem) (by decide)
  rw [formatAuthority]
  split <;> split <;> simp [h, hport]

theorem requestTarget_forward {parseUrl} (hurl : UrlsOneLine parseUrl)
    {method rawTarget host port body originForm authority}
    (h : requestTarget parseUrl method rawTarget body = .ok (host, port, .forward originForm authority)) :
    '\n' ∉ originForm ∧ '\n' ∉ authority := by
  obtain ⟨url, hparse, hhost', -, rfl, rfl⟩ := requestTarget_eq_forward parseUrl h
  obtain ⟨hpath, hquery, hhost⟩ := hurl _ _ hparse
  refine ⟨?_, not_mem_formatAuthority (hhost host hhost') port⟩
  rw [Url.originForm, mem_append, not_or]
  refine ⟨?_, ?_⟩
  · split
    · decide
    · exact hpath
  · split
    · next query hq => simpa using hquery query hq
    · simp

theorem forwardable_of_parse {parseUrl} (hurl : UrlsOneLine parseUrl) {head request}
    (hparse : ParsedRequest.parse parseUrl head = .ok request) {originForm authority}
    (htarget : request.target = .forward originForm authority) : Forwardable request originForm authority := by
  obtain ⟨text, rawTarget, -, hfrom⟩ := parse_eq_ok parseUrl hparse
  have hrequest := hfrom.target
  rw [htarget] at hrequest
  obtain ⟨horigin, hauthority⟩ := requestTarget_forward hurl hrequest
  have hmethod : '\n' ∉ request.method := fun hmem =>
    absurd (Str.isWhitespace_of_mem_word (hfrom.words ▸ mem_cons_self) hmem) (by decide)
  obtain ⟨-, -, htokens⟩ := checkHeaders_eq_ok.1 hfrom.checked
  rw [← hfrom.tokens] at htokens
  refine ⟨fun header hmem => ?_, hmethod, hfrom.version, horigin, hauthority,
    ⟨fun hmem => (htokens _ hmem).2.1 rfl, fun hmem => (htokens _ hmem).2.2 rfl⟩, hfrom.body⟩
  rw [hfrom.headers] at hmem
  obtain ⟨l, hl, rfl⟩ := mem_map.1 hmem
  exact kept_of_isHeaderLine (hfrom.lines l hl)

/-! ## The framing fields -/

theorem valuesOf_append (name : String) (hs hs' : List Header) :
    valuesOf name (hs ++ hs') = valuesOf name hs ++ valuesOf name hs' := by
  simp [valuesOf]

/-- A header that is always forwarded is found in what is forwarded as it was. -/
theorem valuesOf_filter_isForwarded {name tokens}
    (hname : Str.toAsciiLowercase name.toList ∉ hopHeaders) (htokens : Str.toAsciiLowercase name.toList ∉ tokens)
    (headers : List Header) : valuesOf name (headers.filter (isForwarded tokens)) = valuesOf name headers := by
  rw [valuesOf, valuesOf, filter_filter]
  refine congrArg (List.map _) (filter_congr fun h _ => ?_)
  rw [Str.eqIgnoreAsciiCase]
  by_cases heq : Str.toAsciiLowercase h.name = Str.toAsciiLowercase name.toList
  · have hforwarded : isForwarded tokens h = true := by simp [isForwarded, heq, hname, htokens]
    rw [hforwarded, Bool.and_true]
  · rw [beq_eq_false_iff_ne.2 heq, Bool.false_and]

/-- The head that is written for a request. -/
def ParsedRequest.forwardHead (request : ParsedRequest) (originForm authority : Str) : Bytes :=
  buildForwardHead request.method request.version request.headers request.connectionTokens originForm authority

theorem isLine_of_mem_forwardLines {request : ParsedRequest} {originForm authority : Str}
    (h : Forwardable request originForm authority) :
    ∀ l ∈ forwardLines request.method request.version request.headers request.connectionTokens originForm authority,
      Str.IsLine l ∧ l ≠ [] := by
  have hhead := h.method
  have horigin := h.originForm
  have hversion : '\n' ∉ request.version := by
    rcases h.version with hv | hv <;> rw [hv] <;> decide
  have hauthority := h.authority
  simp only [forwardLines, forall_mem_cons, forall_mem_append, forall_mem_map, mem_filter]
  refine ⟨⟨Str.isLine_of_not_mem (by simp [hhead, horigin, hversion]), by simp⟩,
    ⟨Str.isLine_of_not_mem (by simp [Header.line, hauthority]), by simp [Header.line]⟩,
    fun header hmem => (h.headers header hmem.1).line, ⟨Str.isLine_of_not_mem (by decide), by decide⟩, by simp⟩

theorem fieldsOf_forwardHead {request originForm authority} (h : Forwardable request originForm authority) :
    fieldsOf (request.forwardHead originForm authority) =
      ⟨"Host", Str.trimBy isOws authority⟩ ::
        (request.headers.filter (isForwarded request.connectionTokens) ++ [⟨"Connection", "close"⟩]) := by
  rw [fieldsOf, ParsedRequest.forwardHead, buildForwardHead, fromUtf8_utf8Bytes]
  dsimp only
  rw [Str.headLines_joinCrlf (isLine_of_mem_forwardLines h), forwardLines, tail_cons, map_cons,
    map_append, map_map, fieldOf_line (by decide)]
  have hself : ∀ header ∈ request.headers.filter (isForwarded request.connectionTokens),
      (fieldOf ∘ Header.line) header = id header :=
    fun header hmem => (h.headers header (mem_filter.1 hmem).1).fieldOf_line
  rw [map_congr_left hself, map_id]
  rfl

theorem rtakeWhile_append_cons {v : Str} (hv : ' ' ∉ v) (l : Str) : (l ++ ' ' :: v).rtakeWhile (· ≠ ' ') = v := by
  have hall : ∀ c ∈ v.reverse, decide (c ≠ ' ') = true :=
      fun c hc => decide_eq_true fun heq => hv (heq ▸ mem_reverse.1 hc)
  rw [List.rtakeWhile, reverse_append, reverse_cons, append_assoc, takeWhile_append_of_pos hall,
    singleton_append, takeWhile_cons_of_neg (by simp), append_nil, reverse_reverse]

theorem versionOf_forwardHead {request originForm authority} (h : Forwardable request originForm authority) :
    versionOf (request.forwardHead originForm authority) = request.version := by
  have hspace : ' ' ∉ request.version := by
    rcases h.version with hv | hv <;> rw [hv] <;> decide
  rw [versionOf, ParsedRequest.forwardHead, buildForwardHead, fromUtf8_utf8Bytes]
  dsimp only
  rw [Str.headLines_joinCrlf (isLine_of_mem_forwardLines h), forwardLines, headD_cons,
    ← cons_append, ← append_assoc, rtakeWhile_append_cons hspace]

theorem valuesOf_forwardHead {request originForm authority} (h : Forwardable request originForm authority) :
    valuesOf "content-length" (fieldsOf (request.forwardHead originForm authority)) =
      valuesOf "content-length" request.headers ∧
      valuesOf "transfer-encoding" (fieldsOf (request.forwardHead originForm authority)) =
        valuesOf "transfer-encoding" request.headers := by
  have hfields : ∀ name : String, Str.toAsciiLowercase name.toList ∉ hopHeaders →
      Str.toAsciiLowercase name.toList ∉ request.connectionTokens →
        valuesOf name (fieldsOf (request.forwardHead originForm authority)) = valuesOf name request.headers := by
    intro name hname htokens
    have hnone : ∀ header : Header, Str.toAsciiLowercase header.name ∈ hopHeaders → valuesOf name [header] = [] := by
      refine fun header hmem => valuesOf_eq_nil fun header' hmem' => ?_
      rw [mem_singleton.1 hmem', Str.eqIgnoreAsciiCase, beq_eq_false_iff_ne]
      exact fun heq => hname (heq ▸ hmem)
    rw [fieldsOf_forwardHead h, ← singleton_append, valuesOf_append, valuesOf_append,
      hnone ⟨"Host", _⟩ (show Str.toAsciiLowercase "Host" ∈ hopHeaders by decide),
      hnone ⟨"Connection", _⟩ (show Str.toAsciiLowercase "Connection" ∈ hopHeaders by decide),
      valuesOf_filter_isForwarded hname htokens, nil_append, append_nil]
  exact ⟨hfields _ (by decide) h.tokens.1, hfields _ (by decide) h.tokens.2⟩

theorem parseRequestBody_cases {method headers body}
    (h : parseRequestBody method headers = .ok body) :
    (tokensOf (valuesOf "transfer-encoding" headers) ≠ [] ∧ valuesOf "content-length" headers = [] ∧ body = .chunked) ∨
      tokensOf (valuesOf "transfer-encoding" headers) = [] ∧
        (valuesOf "content-length" headers = [] ∧ body = .none ∨
          ∃ n, (∀ v ∈ valuesOf "content-length" headers, parseUnsigned 64 10 (Str.trim v) = some n) ∧
            valuesOf "content-length" headers ≠ [] ∧ body = if n = 0 then .none else .fixed n) := by
  rw [parseRequestBody] at h
  split at h
  · cases h
  · next hnot =>
    split at h
    · next hcoding =>
      split at h
      · cases h
      · cases h
        have hlengths := not_not.1 fun hne => hnot ⟨hne, hcoding⟩
        exact .inl ⟨hcoding, map_eq_nil_iff.1 hlengths, rfl⟩
    · next hcoding =>
      refine .inr ⟨not_not.1 hcoding, ?_⟩
      cases hlengths : valuesOf "content-length" headers with
      | nil =>
        rw [hlengths, map_nil, bodyOfLengths] at h
        split at h
        · cases h
        · exact .inl ⟨rfl, (Except.ok.inj h).symm⟩
      | cons first rest =>
        rw [hlengths, map_cons, bodyOfLengths] at h
        split at h
        · cases h
        · next hany =>
          split at h
          · cases h
          · next n hn =>
            cases h
            have hsame : ∀ v ∈ rest, Str.trim v = Str.trim first := by simpa using hany
            refine .inr ⟨n, fun v hv => ?_, by simp, rfl⟩
            rcases mem_cons.1 hv with rfl | hv
            · exact hn
            · rw [hsame v hv]
              exact hn

theorem forwards_sized (n : Nat) : RequestBody.Forwards (if n = 0 then .none else .fixed n) n := by
  intro σ _ c
  split
  · next hn =>
    rw [hn]
    simp [copyRequestBody, Except.isOk, Except.toBool]
  · obtain ⟨hresult, hsent, -⟩ := copyExact_spec n c
    refine ⟨?_, hsent⟩
    rw [copyRequestBody, copyExactBody]
    dsimp only
    rw [hresult]
    split
    · next hle => simp [hle, Except.map, Except.isOk, Except.toBool]
    · next hlt => simp [hlt, Except.map, Except.isOk, Except.toBool]

/-- A coding `chunked` that a server reads is one for the parser too. -/
theorem tokensOf_ne_nil {values} (h : "chunked".toList ∈ codingsOf values) : tokensOf values ≠ [] := by
  obtain ⟨hmem, -⟩ := mem_filter.1 h
  obtain ⟨coding, hcoding, hlower⟩ := mem_map.1 hmem
  -- its first letter is no white space of either kind
  obtain ⟨c, hc, hletter⟩ : ∃ c ∈ Str.trimBy isOws coding, c.toLower = 'c' := by
    have hin : 'c' ∈ Str.toAsciiLowercase (Str.trimBy isOws coding) := hlower ▸ (by decide)
    exact mem_map.1 hin
  have hspace : Str.isWhitespace c = false := by
    rw [← Bool.not_eq_true]
    intro hwhite
    obtain rfl : c = 'c' := (Str.toLower_of_isWhitespace hwhite).symm.trans hletter
    cases hwhite
  have hne : Str.trim coding ≠ [] := Str.trimBy_ne_nil (Str.mem_of_mem_trimBy hc) hspace
  refine ne_nil_of_mem (mem_filter.2 ⟨mem_map.2 ⟨coding, hcoding, rfl⟩, ?_⟩)
  simpa [Str.toAsciiLowercase] using hne

section
variable {parseUrl : Str → Option Url} {head : Bytes} {request : ParsedRequest} {originForm authority : Str}

theorem Forwardable.trim_value (h : Forwardable request originForm authority) {name v}
    (hv : v ∈ valuesOf name request.headers) : Str.trim v = v := by
  obtain ⟨header, hheader, rfl⟩ := mem_map.1 hv
  exact (h.headers header (mem_filter.1 hheader).1).trimmed

/-- A server that knows transfer codings where there are any, and does not refuse
the head, finds the body that was found. -/
theorem serverBody_eq (h : Forwardable request originForm authority)
    (hknows : valuesOf "transfer-encoding" request.headers ≠ [] → request.version = "HTTP/1.1") {found}
    (hfound : ServerBody (versionOf (request.forwardHead originForm authority))
      (fieldsOf (request.forwardHead originForm authority)) found) : found = request.body := by
  obtain ⟨hlengths, hcodings⟩ := valuesOf_forwardHead h
  rw [versionOf_forwardHead h] at hfound
  cases hfound with
  | chunked _ hlast =>
    rw [hcodings] at hlast
    rcases parseRequestBody_cases h.body with ⟨-, -, hbody⟩ | ⟨hnil, -⟩
    · exact hbody.symm
    · exact absurd hnil (tokensOf_ne_nil (mem_of_getLast? hlast))
  | sized n hcoding hsome hvalues =>
    rw [hlengths] at hsome hvalues
    rcases parseRequestBody_cases h.body with ⟨-, hnil, -⟩ | ⟨-, ⟨hnil, -⟩ | ⟨m, hm, -, hbody⟩⟩
    · exact absurd hnil hsome
    · exact absurd hnil hsome
    · obtain ⟨v, hv⟩ := exists_mem_of_ne_nil _ hsome
      have hparsed := hm v hv
      rw [h.trim_value hv] at hparsed
      rw [hbody, eq_of_parseUnsigned hparsed (hvalues v hv).2]
  | none hcoding hnone =>
    rw [Uncoded, hcodings] at hcoding
    rw [hlengths] at hnone
    rcases parseRequestBody_cases h.body with ⟨hne, -⟩ | ⟨-, ⟨-, hbody⟩ | ⟨-, -, hne, -⟩⟩
    · have hte : valuesOf "transfer-encoding" request.headers ≠ [] := fun hte => hne (by rw [hte]; rfl)
      have hold := hcoding.resolve_left hte
      rw [hknows hte] at hold
      cases hold
    · exact hbody.symm
    · exact absurd hnone hne

/-- For a request that is accepted and forwarded, the head that is written names
one framing, the one its body is copied under, exactly when no content length has
a plus sign and a transfer encoding, if there is one, names a coding and is one of
an HTTP/1.1 request. -/
theorem forwarded_framing_iff (hurl : UrlsOneLine parseUrl) (hparse : ParsedRequest.parse parseUrl head = .ok request)
    (htarget : request.target = .forward originForm authority) :
    SameFraming (request.forwardHead originForm authority) request.body ↔
      (∀ v ∈ valuesOf "content-length" request.headers, v.head? ≠ some '+') ∧
        (valuesOf "transfer-encoding" request.headers ≠ [] →
          tokensOf (valuesOf "transfer-encoding" request.headers) ≠ [] ∧ request.version = "HTTP/1.1") := by
  have h := forwardable_of_parse hurl hparse htarget
  obtain ⟨hlengths, hcodings⟩ := valuesOf_forwardHead h
  refine ⟨fun hsame => ⟨fun v hv hplus => ?_, fun hcoding => ?_⟩, fun ⟨hplus, hcoding⟩ => ?_⟩
  · obtain ⟨-, n, hn, -⟩ := hsame.length v (hlengths ▸ hv)
    exact plain_of_ofDigits hn hplus
  · have hchunked := hsame.chunked.1 (hcodings ▸ hcoding)
    rcases parseRequestBody_cases h.body with ⟨hne, hnil, -⟩ | ⟨-, ⟨-, hbody⟩ | ⟨n, -, -, hbody⟩⟩
    · refine ⟨hne, h.version.resolve_left fun hold => ?_⟩
      have hnone := hsame.server .none (.none (.inr (by rw [versionOf_forwardHead h, hold])) (by rw [hlengths, hnil]))
      rw [hchunked] at hnone
      cases hnone
    · rw [hchunked] at hbody
      cases hbody
    · rw [hchunked] at hbody
      split at hbody <;> cases hbody
  · rcases parseRequestBody_cases h.body with ⟨hne, hnil, hbody⟩ | ⟨hnone, hrest⟩
    · -- chunked: there is a coding, so there is no length
      have hte : valuesOf "transfer-encoding" request.headers ≠ [] := fun hte => hne (by rw [hte]; rfl)
      refine ⟨?_, ?_, ?_, ?_, fun found => serverBody_eq h fun hte => (hcoding hte).2⟩
      · simp [hlengths, hnil]
      · simp [hcodings, hte, hbody]
      · simp [hbody]
      · simp [hlengths, hnil]
    · -- no coding, so by hypothesis no header for one
      have hte : valuesOf "transfer-encoding" request.headers = [] := by
        by_contra hte
        exact (hcoding hte).1 hnone
      rcases hrest with ⟨hnil, hbody⟩ | ⟨n, hn, hsome, hbody⟩
      · refine ⟨?_, ?_, ?_, ?_, fun found => serverBody_eq h fun hte => (hcoding hte).2⟩
        · simp [hcodings, hte]
        · simp [hcodings, hte, hbody]
        · simp [hbody]
        · simp [hlengths, hnil]
      · refine ⟨?_, ?_, ?_, fun v hv => ?_, fun found => serverBody_eq h fun hte => (hcoding hte).2⟩
        · simp [hcodings, hte]
        · rw [hcodings, hte, hbody]
          split <;> simp
        · rw [hlengths]
          exact fun _ _ => hsome
        · rw [hlengths] at hv
          have hparsed := hn v hv
          rw [h.trim_value hv] at hparsed
          obtain ⟨hdigits, hne, -⟩ := parseUnsigned_eq_some hparsed
          rw [stripPlus_of_head (hplus v hv)] at hdigits hne
          exact ⟨hne, n, hdigits, hbody ▸ forwards_sized n⟩

end

/-! ## Four requests -/

def oneUrl (_ : Str) : Option Url := some ⟨"http", [], none, none, some "a.example", some 80, "/", none⟩

theorem oneUrl_oneLine : UrlsOneLine oneUrl := by
  intro target url h
  cases h
  refine ⟨by decide, fun query hquery => (by cases hquery), fun host hhost => ?_⟩
  cases hhost
  decide

/-- A `POST` to it with some header lines. -/
def postLine (version : String) : Str := ("POST http://a.example/ " ++ version).toList

def postHead (version : String) (lines : List Str) : Bytes :=
  utf8Bytes (Str.joinCrlf (postLine version :: lines) ++ ['\r', '\n'])

def postRequest (version : String) (headers : List Header) (body : RequestBody) : ParsedRequest :=
  ⟨"POST", version.toList, headers, none, "a.example", 80, .forward "/" "a.example", body, []⟩

theorem parse_postHead {version lines} (hlines : ∀ l ∈ postLine version :: lines, '\n' ∉ l ∧ l ≠ []) :
    ParsedRequest.parse oneUrl (postHead version lines) = parseLines oneUrl (postLine version :: lines) :=
  parse_joinCrlf oneUrl (by simp) fun l hl => ⟨Str.isLine_of_not_mem (hlines l hl).1, (hlines l hl).2⟩

theorem parse_plain :
    ParsedRequest.parse oneUrl (postHead "HTTP/1.1" ["Content-Length: 5"]) =
      .ok (postRequest "HTTP/1.1" [⟨"Content-Length", "5"⟩] (.fixed 5)) :=
  (parse_postHead (by decide)).trans (by decide +kernel)

theorem parse_encoding :
    ParsedRequest.parse oneUrl (postHead "HTTP/1.1" ["Content-Length: 5", "Transfer-Encoding:"]) =
      .ok (postRequest "HTTP/1.1" [⟨"Content-Length", "5"⟩, ⟨"Transfer-Encoding", []⟩] (.fixed 5)) :=
  (parse_postHead (by decide)).trans (by decide +kernel)

theorem parse_signed :
    ParsedRequest.parse oneUrl (postHead "HTTP/1.1" ["Content-Length: +5"]) =
      .ok (postRequest "HTTP/1.1" [⟨"Content-Length", "+5"⟩] (.fixed 5)) :=
  (parse_postHead (by decide)).trans (by decide +kernel)

theorem parse_old :
    ParsedRequest.parse oneUrl (postHead "HTTP/1.0" ["Transfer-Encoding: chunked"]) =
      .ok (postRequest "HTTP/1.0" [⟨"Transfer-Encoding", "chunked"⟩] .chunked) :=
  (parse_postHead (by decide)).trans (by decide +kernel)

theorem forwarded_framing_plain :
    ParsedRequest.parse oneUrl (postHead "HTTP/1.1" ["Content-Length: 5"]) =
        .ok (postRequest "HTTP/1.1" [⟨"Content-Length", "5"⟩] (.fixed 5)) ∧
      SameFraming ((postRequest "HTTP/1.1" [⟨"Content-Length", "5"⟩] (.fixed 5)).forwardHead "/"
        "a.example") (.fixed 5) :=
  ⟨parse_plain, (forwarded_framing_iff oneUrl_oneLine parse_plain rfl).2 ⟨by decide, by decide⟩⟩

/-- A request with a content length and an empty transfer encoding is forwarded
with both fields, one with a signed length with the sign, and a chunked one of
HTTP/1.0 as such, after whose head a server need not find a body. -/
theorem ambiguous_framing_forwarded :
    (∃ request, ParsedRequest.parse oneUrl
          (postHead "HTTP/1.1" ["Content-Length: 5", "Transfer-Encoding:"]) = .ok request ∧
        request.body = .fixed 5 ∧
        valuesOf "content-length" (fieldsOf (request.forwardHead "/" "a.example")) = ["5".toList] ∧
        valuesOf "transfer-encoding" (fieldsOf (request.forwardHead "/" "a.example")) = [[]]) ∧
    (∃ request, ParsedRequest.parse oneUrl (postHead "HTTP/1.1" ["Content-Length: +5"]) = .ok request ∧
        request.body = .fixed 5 ∧
        valuesOf "content-length" (fieldsOf (request.forwardHead "/" "a.example")) = ["+5".toList]) ∧
    ∃ request, ParsedRequest.parse oneUrl (postHead "HTTP/1.0" ["Transfer-Encoding: chunked"]) = .ok request ∧
        request.body = .chunked ∧
        ServerBody (versionOf (request.forwardHead "/" "a.example"))
          (fieldsOf (request.forwardHead "/" "a.example")) .none := by
  have hencoding := valuesOf_forwardHead (forwardable_of_parse oneUrl_oneLine parse_encoding rfl)
  have hsigned := valuesOf_forwardHead (forwardable_of_parse oneUrl_oneLine parse_signed rfl)
  have hold := forwardable_of_parse oneUrl_oneLine parse_old rfl
  exact ⟨⟨_, parse_encoding, rfl, hencoding.1, hencoding.2⟩, ⟨_, parse_signed, rfl, hsigned.1⟩,
    _, parse_old, rfl, .none (.inr (versionOf_forwardHead hold)) (valuesOf_forwardHead hold).1⟩

end Rove.Inbound
