/-
What becomes of a tunnel request on its way from the edge to the hop. The
edge has decided about one host and port; the hop dials what it reads out of
the frame. `serve_stream_dials_decided_target_iff` says for which hosts these
are the same.
-/
import Rove.Reverse.Frame
import Rove.Inbound.Target

namespace Rove.Reverse

open List

/-! ## Where a frame ends -/

/-- A text up to and with its first blank line, and what is left of it. `nl`
says whether the text comes right after a newline. -/
def cutBlank : Bool → Str → Option (Str × Str)
  | _, [] => none
  | nl, c :: s =>
    if c = '\n' ∧ nl = true then some ([c], s)
    else (cutBlank (decide (c = '\n')) s).map fun (a, b) => (c :: a, b)

theorem suffix_blank_iff (buf : Bytes) (b : UInt8) : [10, 10] <:+ buf ++ [b] ↔ b = 10 ∧ buf.getLast? = some 10 := by
  refine ⟨fun ⟨pre, h⟩ => ?_, fun ⟨hb, hlast⟩ => ?_⟩
  · have hsplit : pre ++ [10] ++ [10] = buf ++ [b] := by simpa using h
    obtain ⟨hbuf, hb⟩ := append_inj' hsplit rfl
    refine ⟨(singleton_inj.1 hb).symm, ?_⟩
    rw [← hbuf]
    simp
  · obtain ⟨pre, rfl⟩ := getLast?_eq_some_iff.1 hlast
    exact ⟨pre, by simp [hb]⟩

/-- Bytes without a newline are taken in as they are, as far as they fit. -/
theorem readLoop_plain {xs} (hxs : (10 : UInt8) ∉ xs) {buf} (hbuf : buf.length ≤ maxFrameBytes)
    (rest : Bytes) :
    readLoop buf (xs ++ rest) =
      if buf.length + xs.length ≤ maxFrameBytes then readLoop (buf ++ xs) rest
      else .error "reverse frame: exceeds max size" := by
  induction xs generalizing buf with
  | nil => simp [hbuf]
  | cons x xs ih =>
    obtain ⟨hx, hxs⟩ := not_or.1 (fun hm => hxs (mem_cons.2 hm))
    have hsuf : ¬ [10, 10] <:+ buf ++ [x] := by
      rw [suffix_blank_iff]
      exact fun h => hx h.1.symm
    rw [cons_append, readLoop]
    simp only [length_append, length_singleton, hsuf, if_false]
    by_cases hlen : buf.length + 1 ≤ maxFrameBytes
    · have htotal : (buf ++ [x]).length + xs.length = buf.length + (x :: xs).length := by
        simp only [length_append, length_cons, length_nil]
        omega
      rw [if_neg (by omega), ih hxs (by simpa using hlen), htotal, append_assoc, singleton_append]
    · rw [if_pos (by omega), if_neg (by simp only [length_cons]; omega)]
      rfl

/-- A text is read up to its first blank line, if that much fits. -/
theorem readLoop_utf8Bytes {s a b nl} (hcut : cutBlank nl s = some (a, b)) {buf}
    (hbuf : buf.length ≤ maxFrameBytes) (hnl : nl = true ↔ buf.getLast? = some 10) (rest : Bytes) :
    readLoop buf (utf8Bytes s ++ rest) =
      if buf.length + (utf8Bytes a).length ≤ maxFrameBytes then .ok (buf ++ utf8Bytes a, utf8Bytes b ++ rest)
      else .error "reverse frame: exceeds max size" := by
  induction s generalizing nl a buf with
  | nil => cases hcut
  | cons c s ih =>
    rw [utf8Bytes_cons, append_assoc]
    rw [cutBlank] at hcut
    by_cases hc : c = '\n'
    · have henc : String.utf8EncodeChar c = [10] := by rw [hc]; rfl
      rw [henc, singleton_append, readLoop]
      simp only [length_append, length_singleton, suffix_blank_iff, true_and, ← hnl]
      cases nl with
      | true =>
        rw [if_pos ⟨hc, rfl⟩] at hcut
        cases hcut
        rw [utf8Bytes_cons, henc, utf8Bytes_nil, if_pos rfl]
        simp only [length_singleton, append_nil, ← not_le, ite_not]
        rfl
      | false =>
        rw [if_neg (by simp)] at hcut
        obtain ⟨⟨a', b'⟩, hrest, hab⟩ := Option.map_eq_some_iff.1 hcut
        cases hab
        rw [utf8Bytes_cons, henc, if_neg Bool.false_ne_true, length_append, length_singleton]
        by_cases hlen : buf.length + 1 ≤ maxFrameBytes
        · have hlast : decide (c = '\n') = true ↔ (buf ++ [10]).getLast? = some 10 := by simp [hc]
          rw [if_neg (by omega), ih hrest (by simpa using hlen) hlast, length_append, length_singleton,
            append_assoc, Nat.add_assoc]
        · rw [if_pos (by omega), if_neg (by omega)]
          rfl
    · have henc : (10 : UInt8) ∉ String.utf8EncodeChar c := by
        intro hm
        exact hc (Char.toNat_inj.1 (toNat_eq_of_mem_encode (by decide) hm))
      rw [if_neg (fun h => hc h.1)] at hcut
      obtain ⟨⟨a', b'⟩, hrest, hab⟩ := Option.map_eq_some_iff.1 hcut
      cases hab
      rw [readLoop_plain henc hbuf, utf8Bytes_cons, length_append]
      by_cases hlen : buf.length + (String.utf8EncodeChar c).length ≤ maxFrameBytes
      · have hlast : decide (c = '\n') = true ↔ (buf ++ String.utf8EncodeChar c).getLast? = some 10 := by
          rw [getLast?_append_of_ne_nil _ String.utf8EncodeChar_ne_nil]
          exact ⟨fun h => absurd (of_decide_eq_true h) hc, fun h => absurd (mem_of_getLast? h) henc⟩
        rw [if_pos hlen, ih hrest (by rw [length_append]; exact hlen) hlast, length_append,
          append_assoc, Nat.add_assoc]
      · rw [if_neg hlen, if_neg (by omega)]

theorem exists_cutBlank (nl : Bool) (s : Str) : ∃ a b, cutBlank nl (s ++ ['\n', '\n']) = some (a, b) := by
  induction s generalizing nl with
  | nil => cases nl <;> exact ⟨_, _, rfl⟩
  | cons c s ih =>
    rw [cons_append, cutBlank]
    split
    · exact ⟨_, _, rfl⟩
    · obtain ⟨a, b, hab⟩ := ih (decide (c = '\n'))
      exact ⟨c :: a, b, by rw [hab]; rfl⟩

theorem cutBlank_line {l r a b} (hl : '\n' ∉ l) (hcut : cutBlank false (l ++ '\n' :: r) = some (a, b)) :
    ∃ a', a = l ++ '\n' :: a' := by
  induction l generalizing a with
  | nil =>
    obtain ⟨⟨a', b'⟩, -, hab⟩ := Option.map_eq_some_iff.1 (show (cutBlank true r).map _ = some (a, b) from hcut)
    exact ⟨a', (Prod.mk.inj hab).1.symm⟩
  | cons c l ih =>
    obtain ⟨hc, hl⟩ := not_or.1 (fun hm => hl (mem_cons.2 hm))
    rw [cons_append, cutBlank, if_neg (fun h => hc h.1.symm), decide_eq_false (Ne.symm hc)] at hcut
    obtain ⟨⟨a₁, b₁⟩, hrest, hab⟩ := Option.map_eq_some_iff.1 hcut
    cases hab
    obtain ⟨a', rfl⟩ := ih hl hrest
    exact ⟨a', rfl⟩

/-! ## What the first line says -/

theorem rdropWhile_cons {α : Type} {p x} (hx : p x = false) (xs : List α) :
    ∃ ys, (x :: xs).rdropWhile p = x :: ys := by
  rw [List.rdropWhile, reverse_cons, dropWhile_append]
  split
  · exact ⟨[], by simp [hx]⟩
  · exact ⟨(xs.reverse.dropWhile p).reverse, by simp⟩

theorem splitLines_utf8Bytes {l} (hl : '\n' ∉ l) (hne : stripCr l ≠ []) (a : Str) :
    ∃ ls, splitLines (utf8Bytes (l ++ '\n' :: a)) = stripCr l :: ls := by
  rw [splitLines, fromUtf8Lossy_utf8Bytes, splitOn_append_cons_self_of_not_mem hl, map_cons]
  exact rdropWhile_cons (by simpa using hne) _

theorem splitWhitespace_stripCr (s : Str) : Str.splitWhitespace (stripCr s) = Str.splitWhitespace s := by
  unfold stripCr
  split
  · next h =>
    obtain ⟨t, rfl⟩ := getLast?_eq_some_iff.1 h
    rw [dropLast_concat, Str.splitWhitespace_append_singleton t (by decide)]
  · rfl

theorem stripCr_connect (s : Str) : stripCr ("CONNECT " ++ s) = "CONNECT " ++ stripCr s := by
  cases s using List.reverseRecOn with
  | nil => rfl
  | append_singleton t c =>
    unfold stripCr
    rw [← append_assoc, getLast?_concat, getLast?_concat]
    split
    · rw [dropLast_concat, dropLast_concat]
    · rw [append_assoc]

theorem serveStream_line {l} (hl : '\n' ∉ l) {r a b}
    (hcut : cutBlank false ("CONNECT " ++ l ++ '\n' :: r) = some (a, b)) (payload : Bytes) :
    ∃ id, serveStream (utf8Bytes ("CONNECT " ++ l ++ '\n' :: r) ++ payload) =
      if (utf8Bytes a).length ≤ maxFrameBytes then
        match parseTarget (Str.splitWhitespace l) with
        | .ok (host, port) => .dial ⟨host, port, id⟩ (utf8Bytes b ++ payload)
        | .error _ => .badRequest
      else .badRequest := by
  have hline : '\n' ∉ "CONNECT " ++ l := by
    rw [mem_append]
    exact not_or.2 ⟨by decide, hl⟩
  have hread := readLoop_utf8Bytes hcut (show List.length ([] : Bytes) ≤ maxFrameBytes by simp)
    (show false = true ↔ ([] : Bytes).getLast? = some 10 by simp) payload
  obtain ⟨a', rfl⟩ := cutBlank_line hline hcut
  obtain ⟨ls, hls⟩ := splitLines_utf8Bytes hline (by rw [stripCr_connect]; simp) a'
  have hwords : Str.splitWhitespace (stripCr ("CONNECT ".toList ++ l)) = "CONNECT".toList :: Str.splitWhitespace l := by
    rw [splitWhitespace_stripCr]
    exact Str.splitWhitespace_append_cons "CONNECT".toList l (by decide)
  have hprefix : Str.stripPrefix "CONNECT " (stripCr ("CONNECT " ++ l)) = some (stripCr l) := by
    rw [stripCr_connect]
    exact isPrefixOf?_eq_some_iff_append_eq.2 rfl
  refine ⟨(header (parseHeaders ls) "tunnel-id").filter (· ≠ []), ?_⟩
  unfold serveStream readFrame
  rw [hread]
  by_cases hlen : (utf8Bytes ("CONNECT " ++ l ++ '\n' :: a')).length ≤ maxFrameBytes
  · simp only [length_nil, Nat.zero_add, hlen, if_true, nil_append, Res.ok_bind, hls]
    simp only [pure, Except.pure, head?_cons, Option.bind_some, hwords, Option.getD_some, if_true,
      TunnelRequest.parse, hprefix, splitWhitespace_stripCr]
    cases parseTarget (Str.splitWhitespace l) with
    | error e => rfl
    | ok t => rfl
  · simp only [length_nil, Nat.zero_add, hlen, if_false]
    rfl

theorem parseTarget_eq_ok {ws t p} :
    parseTarget ws = .ok (t, p) ↔ ∃ w n, ws = [t, w] ∧ parseUnsigned 16 10 w = some n ∧ p = BitVec.ofNat 16 n ∧
      t ≠ [] ∧ (utf8Bytes t).length ≤ 255 := by
  rcases ws with _ | ⟨h, _ | ⟨w, _ | ⟨x, ws⟩⟩⟩
  · simp [parseTarget]
  · simp [parseTarget]
  · rw [parseTarget]
    cases hw : parseUnsigned 16 10 w with
    | none => simp [hw]
    | some n =>
      simp only [Res.ensure_bind_eq_ok, Res.pure_eq_ok, Prod.mk.injEq, List.cons.injEq, and_true]
      refine ⟨fun h => ?_, fun h => ?_⟩
      · obtain ⟨⟨hne, hlen⟩, rfl, hp⟩ := h
        exact ⟨w, n, ⟨rfl, rfl⟩, hw, hp.symm, hne, hlen⟩
      · obtain ⟨w', n', ⟨rfl, rfl⟩, hn, hp, hne, hlen⟩ := h
        rw [hw] at hn
        exact ⟨⟨hne, hlen⟩, rfl, by rw [hp, Option.some.inj hn]⟩
  · simp [parseTarget]

/-! ## The decided target -/

/-- The bytes of the frame up to its first blank line. -/
def TunnelRequest.frameLength (r : TunnelRequest) : Nat :=
  ((cutBlank false r.text).map fun (a, _) => (utf8Bytes a).length).getD 0

/-- The hop reads another target out of the frame. The frame fits, and the host
is one word with whitespace around it, or it breaks the line after two words
of which the second is a port. -/
def TunnelRequest.Altered (r : TunnelRequest) : Prop :=
  r.frameLength ≤ maxFrameBytes ∧
    match Str.splitOnce '\n' r.host with
    | none => ∃ t, Str.splitWhitespace r.host = [t] ∧ t ≠ r.host ∧ (utf8Bytes t).length ≤ 255
    | some (line, _) =>
      ∃ t p, Str.splitWhitespace line = [t, p] ∧ (parseUnsigned 16 10 p).isSome ∧ (utf8Bytes t).length ≤ 255

theorem TunnelRequest.exists_target (r : TunnelRequest) :
    ∃ rest, r.text = "CONNECT " ++ (r.host ++ ' ' :: showNat r.port.toNat) ++ '\n' :: rest :=
  ⟨_, by
    unfold TunnelRequest.text
    simp only [append_assoc, cons_append]
    rfl⟩

/-- The first line of a frame after its verb, and the lines after it. -/
theorem TunnelRequest.exists_line (r : TunnelRequest) :
    ∃ line rest, r.text = "CONNECT " ++ line ++ '\n' :: rest ∧ '\n' ∉ line ∧
      ((Str.splitOnce '\n' r.host = none ∧ line = r.host ++ ' ' :: showNat r.port.toNat) ∨
        ∃ tail, Str.splitOnce '\n' r.host = some (line, tail) ∧ '\n' ∈ r.host) := by
  obtain ⟨rest, htext⟩ := r.exists_target
  by_cases hn : '\n' ∈ r.host
  · obtain ⟨line, tail, hhost, hline, hsplit⟩ := Str.exists_splitOnce hn
    refine ⟨line, tail ++ ' ' :: showNat r.port.toNat ++ '\n' :: rest, ?_, hline, .inr ⟨tail, hsplit, hn⟩⟩
    rw [htext, hhost]
    simp only [append_assoc, cons_append]
  · have hport : '\n' ∉ showNat r.port.toNat := fun h => absurd (isDigit_of_mem_showNat h) (by decide)
    exact ⟨_, rest, htext, by simp [hn, hport], .inl ⟨Str.splitOnce_eq_none hn, rfl⟩⟩

theorem TunnelRequest.exists_end (r : TunnelRequest) : ∃ s, r.text = s ++ ['\n', '\n'] := by
  unfold TunnelRequest.text
  cases r.tunnelId with
  | none => exact ⟨"CONNECT " ++ r.host ++ ' ' :: showNat r.port.toNat, by simp⟩
  | some id => exact ⟨"CONNECT " ++ r.host ++ ' ' :: showNat r.port.toNat ++ '\n' :: "tunnel-id: " ++ id,
      by simp⟩

theorem parseTarget_plain {host} (port : BitVec 16) {t p} :
    parseTarget (Str.splitWhitespace (host ++ ' ' :: showNat port.toNat)) = .ok (t, p) ↔
      Str.splitWhitespace host = [t] ∧ p = port ∧ (utf8Bytes t).length ≤ 255 := by
  have hwords : Str.splitWhitespace (host ++ ' ' :: showNat port.toNat) =
      Str.splitWhitespace host ++ [showNat port.toNat] := by
    rw [Str.splitWhitespace_append_cons host _ (by decide),
      Str.splitWhitespace_word (showNat_ne_nil _) fun c hc => isWhitespace_of_mem_showNat hc]
  have hport : parseUnsigned 16 10 (showNat port.toNat) = some port.toNat := parseUnsigned_showNat port.isLt
  rw [hwords, parseTarget_eq_ok]
  refine ⟨fun h => ?_, fun h => ?_⟩
  · obtain ⟨w, n, hws, hw, hp, _, hlen⟩ := h
    obtain ⟨hhost, rfl⟩ : Str.splitWhitespace host = [t] ∧ showNat port.toNat = w := by
      rw [show [t, w] = [t] ++ [w] from rfl, append_singleton_inj] at hws
      exact hws
    rw [hport] at hw
    refine ⟨hhost, ?_, hlen⟩
    rw [hp, ← Option.some.inj hw, BitVec.ofNat_toNat, BitVec.setWidth_eq]
  · obtain ⟨hws, hp, hlen⟩ := h
    refine ⟨_, _, by rw [hws]; rfl, hport, ?_, ?_, hlen⟩
    · rw [hp, BitVec.ofNat_toNat, BitVec.setWidth_eq]
    · exact Str.ne_nil_of_mem_splitWhitespace (s := host) (by simp [hws])

theorem dials_decided_iff {target : Res (Str × BitVec 16)} {id : Option Str} {rest : Bytes} {host : Str}
    {port : BitVec 16} {action : HopAction}
    (haction : action = match target with
      | .ok (host, port) => .dial ⟨host, port, id⟩ rest
      | .error _ => .badRequest) :
    (action = .badRequest ∨ ∃ request payload, action = .dial request payload ∧
        request.host = host ∧ request.port = port) ↔
      ∀ t p, target = .ok (t, p) → t = host ∧ p = port := by
  subst haction
  cases target with
  | error e => simp
  | ok target =>
    obtain ⟨t, p⟩ := target
    simp

/-- The hop dials the target that the edge decided about, or refuses the
stream, exactly when the frame does not alter it. -/
theorem serve_stream_dials_decided_target_iff (r : TunnelRequest) (payload : Bytes) :
    (serveStream (r.encode ++ payload) = .badRequest ∨
        ∃ request rest, serveStream (r.encode ++ payload) = .dial request rest ∧
          request.host = r.host ∧ request.port = r.port) ↔
      ¬ r.Altered := by
  obtain ⟨line, rest, htext, hline, hcases⟩ := r.exists_line
  obtain ⟨s, hs⟩ := r.exists_end
  obtain ⟨a, b, hcut⟩ := exists_cutBlank false s
  rw [← hs] at hcut
  have hlen : r.frameLength = (utf8Bytes a).length := by simp [TunnelRequest.frameLength, hcut]
  obtain ⟨id, hserve⟩ := serveStream_line hline (htext ▸ hcut) payload
  rw [← htext] at hserve
  rw [TunnelRequest.encode, TunnelRequest.Altered, hlen]
  by_cases hfits : (utf8Bytes a).length ≤ maxFrameBytes
  · rw [if_pos hfits] at hserve
    rw [dials_decided_iff hserve, and_iff_right hfits]
    rcases hcases with ⟨hsplit, hline⟩ | ⟨tail, hsplit, hn⟩
    · rw [hsplit, hline]
      simp only [parseTarget_plain]
      refine ⟨fun h hbad => ?_, fun h t p hok => ?_⟩
      · obtain ⟨t, hws, hne, hlen⟩ := hbad
        exact hne (h t r.port ⟨hws, rfl, hlen⟩).1
      · obtain ⟨hws, hp, hlen⟩ := hok
        exact ⟨not_not.1 fun hne => h ⟨t, hws, hne, hlen⟩, hp⟩
    · rw [hsplit]
      simp only [parseTarget_eq_ok]
      -- a word has no newline, so an accepted first line is never about the host
      have hother : ∀ t ∈ Str.splitWhitespace line, t ≠ r.host := by
        intro t ht heq
        have := Str.isWhitespace_of_mem_word ht (heq ▸ hn)
        cases this
      refine ⟨fun h hbad => ?_, fun h t p hok => ?_⟩
      · obtain ⟨t, w, hws, hw, hlen⟩ := hbad
        obtain ⟨n, hn⟩ := Option.isSome_iff_exists.1 hw
        have ht : t ∈ Str.splitWhitespace line := by simp [hws]
        exact hother t ht (h t _ ⟨w, n, hws, hn, rfl, Str.ne_nil_of_mem_splitWhitespace ht, hlen⟩).1
      · obtain ⟨w, n, hws, hw, hp, hne, hlen⟩ := hok
        exact absurd ⟨t, w, hws, by rw [hw]; rfl, hlen⟩ h
  · rw [if_neg hfits] at hserve
    exact ⟨fun _ h => hfits h.1, fun _ => .inl hserve⟩

/-- A SOCKS5 client asks for port 443 of a host with a line break in it; the
hop dials port 22 of what comes before. -/
theorem serve_stream_dials_injected_target :
    Inbound.socks5Target (0x03 :: 14 :: (utf8Bytes "a.example 22\nx" ++ beBytes 2 443)) =
        some ("a.example 22\nx".toList, 443) ∧
      ∃ request rest, serveStream
          (TunnelRequest.encode ⟨"a.example 22\nx", 443, some "edge-0"⟩) = .dial request rest ∧
        request.host = "a.example" ∧ request.port = 22 := by
  refine ⟨?_, ⟨"a.example", 22, some "edge-0"⟩, [], by decide +kernel, rfl, rfl⟩
  exact Inbound.socks5_carries_domain (by decide +kernel) (by decide)

end Rove.Reverse
