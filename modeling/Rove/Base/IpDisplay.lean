/-
IP and socket addresses read back from their `Display` text. An IPv6 address is
written with `::` for its longest run of zero groups, and with a dotted quad if
it is an IPv4-mapped one; the parser takes both. What follows the text only has
to be no part of an address (`EndsAddr`), so that the results serve for the
brackets of a socket address too.
-/
import Rove.Base.IpText
import Rove.Base.SocketAddr

namespace Rove

open List

namespace IpText

/-! ## Groups -/

theorem isDigitOf_hex {c} (h : isDigitOf 10 c = true) : isDigitOf 16 c = true := by
  obtain ⟨d, hd⟩ := Option.isSome_iff_exists.1 h
  obtain ⟨hv, hlt⟩ := Option.filter_eq_some_iff.1 hd
  have hlt' : d < 10 := by simpa using hlt
  refine Option.isSome_iff_exists.2 ⟨d, Option.filter_eq_some_iff.2 ⟨hv, ?_⟩⟩
  simp
  omega

theorem EndsNumber.decimal {s} (h : EndsNumber 16 s) : EndsNumber 10 s := by
  intro c hc
  have hhex := h c hc
  cases hdec : isDigitOf 10 c with
  | false => rfl
  | true => rw [isDigitOf_hex hdec] at hhex; cases hhex

theorem isDigitOf_toDigits {g} : ∀ c ∈ Nat.toDigits 16 g, isDigitOf 16 c = true :=
  isDigitOf_of_ofDigits (ofDigits_toDigits (by decide) (by decide) g)

theorem readNumber_toDigits {g} (hg : g < 65536) {rest} (hrest : EndsNumber 16 rest) :
    readNumber 16 4 true 65536 (Nat.toDigits 16 g ++ rest) = some (g, rest) :=
  readNumber_append isDigitOf_toDigits hrest Nat.toDigits_ne_nil
    ((Nat.length_toDigits_le_iff (by decide) (by decide)).2 hg) (fun _ => .inl rfl)
    (ofDigits_toDigits (by decide) (by decide) g) hg

/-- Hexadecimal digits that no dot follows are no start of a dotted quad. -/
theorem readIpv4_digits {ds rest} (hds : ∀ c ∈ ds, isDigitOf 16 c = true) (hrest : EndsNumber 16 rest)
    (hdot : rest.head? ≠ some '.') : readIpv4 (ds ++ rest) = none := by
  cases hread : readIpv4 (ds ++ rest) with
  | none => rfl
  | some r =>
    obtain ⟨d₁, d₂, d₃, d₄, hd₁, -, -, -, heq⟩ := readIpv4_eq_some hread
    have hleft := dropWhile_digits hds hrest
    have hright := @dropWhile_digits 16 d₁ ('.' :: (d₂ ++ '.' :: (d₃ ++ '.' :: (d₄ ++ r.2))))
      (fun c hc => isDigitOf_hex (hd₁.2.1 c hc)) (endsNumber_cons (by decide) _)
    rw [heq, hright] at hleft
    exact absurd (by rw [← hleft]; rfl) hdot

/-- Groups as text, with a colon before each but the first of all. -/
def writeGroups : (i : Nat) → List Nat → Str
  | _, [] => []
  | i, g :: gs => (if i = 0 then [] else [':']) ++ Nat.toDigits 16 g ++ writeGroups (i + 1) gs

theorem groupsText_eq (gs : List Nat) : groupsText gs = writeGroups 0 gs := by
  have htail : ∀ i gs, writeGroups (i + 1) gs = gs.flatMap fun g => ':' :: Nat.toDigits 16 g := by
    intro i gs
    induction gs generalizing i with
    | nil => rfl
    | cons g gs ih => simp [writeGroups, ih]
  cases gs with
  | nil => rfl
  | cons g gs =>
    rw [writeGroups, htail, groupsText, Str.join]
    induction gs generalizing g with
    | nil => simp [List.intercalate]
    | cons g' gs ih => simpa [List.intercalate] using ih g'

/-- What follows groups that were written: a colon, or what follows them all. -/
theorem ends_writeGroups {rest} (hrest : EndsNumber 16 rest) (hdot : rest.head? ≠ some '.') (i : Nat) (gs : List Nat) :
    EndsNumber 16 (writeGroups (i + 1) gs ++ rest) ∧ (writeGroups (i + 1) gs ++ rest).head? ≠ some '.' := by
  cases gs with
  | nil => exact ⟨hrest, hdot⟩
  | cons g gs => exact ⟨endsNumber_cons (by decide) _, by simp [writeGroups]⟩

/-- Groups that were written are read back, as far as there is room for them. -/
theorem readGroups_writeGroups {gs} (hgs : ∀ g ∈ gs, g < 65536) {rest} (hrest : EndsNumber 16 rest)
    (hdot : rest.head? ≠ some '.') (i left : Nat) (hleft : gs.length ≤ left)
    (hstop : gs.length < left → ∀ s, readSep ':' (i + gs.length) rest = some s → EndsNumber 16 s) :
    readGroups i left (writeGroups i gs ++ rest) = (gs, false, rest) := by
  induction gs generalizing i left with
  | nil =>
    cases left with
    | zero => rfl
    | succ left =>
      rw [readGroups, writeGroups, nil_append]
      cases hsep : readSep ':' i rest with
      | none => simp
      | some s =>
        have hs := hstop (Nat.succ_pos left) s hsep
        simp only [Option.bind_some, readIpv4_eq_none hs.decimal, readNumber_eq_none hs, ite_self]
  | cons g gs ih =>
    obtain ⟨hg, hgs⟩ := forall_mem_cons.1 hgs
    obtain ⟨left, rfl⟩ : ∃ k, left = k + 1 := ⟨left - 1, by simp at hleft; omega⟩
    obtain ⟨hend, hnodot⟩ := ends_writeGroups hrest hdot i gs
    have hsep : readSep ':' i (writeGroups i (g :: gs) ++ rest) =
        some (Nat.toDigits 16 g ++ (writeGroups (i + 1) gs ++ rest)) := by
      rw [readSep, writeGroups]
      split <;> simp [readGivenChar]
    have hnext := ih hgs (i + 1) left (by simpa using hleft) fun hlt s hs =>
      hstop (by simpa using hlt) s (by rwa [length_cons, ← Nat.add_assoc, Nat.add_right_comm])
    rw [readGroups, hsep]
    simp only [Option.bind_some, readIpv4_digits isDigitOf_toDigits hend hnodot, ite_self,
      readNumber_toDigits hg hend, hnext]

/-! ## The run that is left out -/

/-- A run, by its start and length, has zeros only. -/
def ZeroRun (gs : List Nat) (run : Nat × Nat) : Prop := ∀ j, run.1 ≤ j → j < run.1 + run.2 → gs[j]? = some 0

theorem zeroRun_longestZeros {all gs i cur best} (hgs : all.drop i = gs)
    (hcur : ZeroRun all cur) (hend : cur.2 ≠ 0 → cur.1 + cur.2 = i) (hbest : ZeroRun all best) :
    ZeroRun all (longestZeros i gs cur best) := by
  induction gs generalizing i cur best with
  | nil => exact hbest
  | cons g gs ih =>
    have hnext : all.drop (i + 1) = gs := by rw [← drop_drop, hgs]; rfl
    have hget : all[i]? = some g := by rw [← head?_drop, hgs]; rfl
    rw [longestZeros]
    split
    · next hg =>
      -- the current run is one longer, and ends after `i`
      have hrun : ZeroRun all (if cur.2 = 0 then i else cur.1, cur.2 + 1) := by
        intro j hlo hhi
        rcases Nat.lt_or_ge j i with hj | hj
        · by_cases hz : cur.2 = 0
          · simp only [hz, if_true] at hlo
            omega
          · simp only [hz, if_false] at hlo hhi
            exact hcur j hlo (by omega)
        · have hji : j = i := by
            by_cases hz : cur.2 = 0
            · simp only [hz, if_true] at hhi
              omega
            · simp only [hz, if_false] at hhi
              omega
          rw [hji, hget, hg]
      refine ih hnext hrun (fun _ => ?_) ?_
      · by_cases hz : cur.2 = 0
        · simp [hz]
        · simp only [hz, if_false]
          omega
      · dsimp only
        split
        · exact hrun
        · exact hbest
    · exact ih hnext (fun j _ hlt => absurd hlt (by simp only; omega)) (fun h => absurd rfl h) hbest

/-- The groups around a run of zeros, and the run, are the groups. -/
theorem ZeroRun.split {gs run} (h : ZeroRun gs run) (hpos : 0 < run.2) :
    run.1 + run.2 ≤ gs.length ∧
      gs.take run.1 ++ replicate run.2 0 ++ gs.drop (run.1 + run.2) = gs := by
  have hle : run.1 + run.2 ≤ gs.length := by
    have hlast := h (run.1 + run.2 - 1) (by omega) (by omega)
    have := (List.getElem?_eq_some_iff.1 hlast).1
    omega
  have hmid : (gs.drop run.1).take run.2 = replicate run.2 0 := by
    apply ext_getElem?
    intro j
    by_cases hj : j < run.2
    · rw [getElem?_take_of_lt hj, getElem?_drop, h (run.1 + j) (by omega) (by omega), getElem?_replicate,
        if_pos hj]
    · rw [getElem?_take_eq_none (by omega), getElem?_replicate, if_neg hj]
  refine ⟨hle, ?_⟩
  rw [← hmid, ← drop_drop, append_assoc, take_append_drop, take_append_drop]

/-! ## Reading back -/

/-- What follows is no part of an address. -/
def EndsAddr (rest : Str) : Prop := EndsNumber 16 rest ∧ rest.head? ≠ some ':' ∧ rest.head? ≠ some '.'

theorem endsAddr_nil : EndsAddr [] := ⟨endsNumber_nil, nofun, nofun⟩

theorem EndsAddr.readSep {rest s} (h : EndsAddr rest) (i : Nat)
    (hs : readSep ':' i rest = some s) : EndsNumber 16 s := by
  unfold IpText.readSep at hs
  split at hs
  · exact Option.some.inj hs ▸ h.1
  · unfold readGivenChar at hs
    split at hs
    · split at hs
      · next hc => exact absurd (by rw [hc]; rfl) h.2.1
      · cases hs
    · cases hs

theorem readIpv6_groups {gs} (hgs : ∀ g ∈ gs, g < 65536) (hlen : gs.length = 8) {rest} (hrest : EndsAddr rest) :
    readIpv6 (groupsText gs ++ rest) = some (Ipv6Addr.ofGroups gs, rest) := by
  have hread := readGroups_writeGroups hgs hrest.1 hrest.2.2 0 8 hlen.le (fun h => absurd h (by omega))
  rw [readIpv6, groupsText_eq, hread]
  simp [hlen]

theorem readIpv6_compressed {head tail} (hhead : ∀ g ∈ head, g < 65536) (htail : ∀ g ∈ tail, g < 65536)
    (hlen : head.length + tail.length < 8) {rest} (hrest : EndsAddr rest) :
    readIpv6 (groupsText head ++ ("::" ++ (groupsText tail ++ rest))) =
      some (Ipv6Addr.ofGroups (head ++ replicate (8 - head.length - tail.length) 0 ++ tail), rest) := by
  have hcolons : ∀ s, EndsNumber 16 (':' :: s) := endsNumber_cons (by decide)
  have hfirst : readGroups 0 8 (writeGroups 0 head ++ ("::" ++ (groupsText tail ++ rest))) =
      (head, false, "::" ++ (groupsText tail ++ rest)) := by
    refine readGroups_writeGroups hhead (hcolons _) (by simp) 0 8 (by omega) fun _ s hs => ?_
    unfold readSep at hs
    split at hs
    · exact Option.some.inj hs ▸ hcolons _
    · have hs' : some (':' :: (groupsText tail ++ rest)) = some s := hs
      exact Option.some.inj hs' ▸ hcolons _
  have hsecond := readGroups_writeGroups htail hrest.1 hrest.2.2 0 (8 - (head.length + 1)) (by omega)
    fun _ s hs => hrest.readSep _ hs
  have hroom : 8 - (head.length + 1) = 7 - head.length := by omega
  have hne : ¬ head.length = 8 := by omega
  rw [hroom] at hsecond
  rw [readIpv6, groupsText_eq head, hfirst]
  simp [hne, readGivenChar, groupsText_eq tail, hsecond]

theorem group_lt (a : Ipv6Addr) : ∀ g ∈ (List.range 8).map a.group, g < 65536 := by
  intro g hg
  obtain ⟨i, -, rfl⟩ := mem_map.1 hg
  exact Nat.mod_lt _ (by decide)

theorem readIpv6_toText (a : Ipv6Addr) {rest} (hrest : EndsAddr rest) :
    readIpv6 (a.toText ++ rest) = some (a, rest) := by
  unfold Ipv6Addr.toText
  cases hv4 : a.toIpv4Mapped with
  | some v4 =>
    rw [append_assoc, readIpv6_mapped v4 hrest.1.decimal, ← Ipv6Addr.eq_toIpv6Mapped hv4]
  | none =>
    have hgs := group_lt a
    have hgroups : ((List.range 8).map a.group).length = 8 := by simp
    have hof := ofGroups_group a
    have hrun := @zeroRun_longestZeros ((List.range 8).map a.group) ((List.range 8).map a.group) 0 (0, 0) (0, 0) rfl
      (fun j _ h => absurd h (by simp)) (fun h => absurd rfl h) (fun j _ h => absurd h (by simp))
    generalize (List.range 8).map a.group = gs at *
    dsimp only
    generalize longestZeros 0 gs (0, 0) (0, 0) = run at *
    split
    · next hpos =>
      obtain ⟨hle, hsplit⟩ := hrun.split (by omega)
      have hread := @readIpv6_compressed (gs.take run.1) (gs.drop (run.1 + run.2))
        (fun g hg => hgs g (mem_of_mem_take hg)) (fun g hg => hgs g (mem_of_mem_drop hg))
        (by rw [length_take_of_le (by omega), length_drop]; omega) rest hrest
      have hmid : 8 - (gs.take run.1).length - (gs.drop (run.1 + run.2)).length = run.2 := by
        rw [length_take_of_le (by omega), length_drop]
        omega
      rw [hmid, hsplit, hof] at hread
      rw [append_assoc, append_assoc]
      exact hread
    · rw [readIpv6_groups hgs hgroups hrest, hof]

/-- In the text of an IPv6 address a colon follows the first digits. -/
theorem exists_colon (a : Ipv6Addr) :
    ∃ ds t, a.toText = ds ++ ':' :: t ∧ ∀ c ∈ ds, isDigitOf 16 c = true := by
  have hgroups : ∀ gs t, ∃ ds t', groupsText gs ++ ':' :: t = ds ++ ':' :: t' ∧ ∀ c ∈ ds, isDigitOf 16 c = true := by
    intro gs t
    rw [groupsText_eq]
    match gs with
    | [] => exact ⟨[], t, rfl, nofun⟩
    | [g] => exact ⟨Nat.toDigits 16 g, t, by simp [writeGroups], isDigitOf_toDigits⟩
    | g :: g' :: gs =>
      exact ⟨Nat.toDigits 16 g, Nat.toDigits 16 g' ++ (writeGroups 2 gs ++ ':' :: t),
        by simp [writeGroups], isDigitOf_toDigits⟩
  unfold Ipv6Addr.toText
  split
  · exact ⟨[], _, rfl, nofun⟩
  · dsimp only
    split
    · rw [append_assoc]
      exact hgroups _ _
    · exact ⟨Nat.toDigits 16 (a.group 0), _, rfl, isDigitOf_toDigits⟩

theorem parseIpAddr_v6_toText (a : Ipv6Addr) : parseIpAddr a.toText = some (.v6 a) := by
  obtain ⟨ds, t, htext, hds⟩ := exists_colon a
  have hv4 : readIpv4 (ds ++ ':' :: t) = none := readIpv4_digits hds (endsNumber_cons (by decide) t) (by simp)
  have hv6 := readIpv6_toText a endsAddr_nil
  rw [append_nil] at hv6
  unfold parseIpAddr parseWith readIpAddr
  rw [htext, hv4, ← htext, hv6]
  rfl

end IpText

open IpText

theorem IpAddr.parse_toText (ip : IpAddr) : parseIpAddr ip.toText = some ip := by
  cases ip with
  | v4 a => exact parseIpAddr_toText a
  | v6 a => exact parseIpAddr_v6_toText a

/-! ## Socket addresses -/

/-- `Display` of a socket address, which leaves the flow information out. -/
def SocketAddr.toText : SocketAddr → Str
  | .v4 ip port => ip.toText ++ ':' :: showNat port.toNat
  | .v6 ip port _ scopeId =>
    '[' :: ip.toText ++ (if scopeId = 0 then [] else '%' :: showNat scopeId.toNat) ++ ']' :: ':' :: showNat port.toNat

namespace IpText

end IpText

/-! ## What the text is like -/

/-- What stands in the text of an address. -/
def isAddrChar (c : Char) : Bool := isDigitOf 16 c || c == '.' || c == ':'

theorem isAddrChar_of_isDigitOf {c} (h : isDigitOf 16 c = true) : isAddrChar c = true := by
  rw [isAddrChar, h, Bool.true_or, Bool.true_or]

namespace IpText

theorem isAddrChar_of_mem_writeGroups {i gs c} (h : c ∈ writeGroups i gs) : isAddrChar c = true := by
  induction gs generalizing i with
  | nil => cases h
  | cons g gs ih =>
    rw [writeGroups, append_assoc, mem_append, mem_append] at h
    rcases h with h | h | h
    · split at h
      · cases h
      · rw [mem_singleton.1 h]
        decide
    · exact isAddrChar_of_isDigitOf (isDigitOf_toDigits c h)
    · exact ih h

end IpText

theorem Ipv4Addr.isAddrChar_of_mem_toText {a : Ipv4Addr} {c} (h : c ∈ a.toText) : isAddrChar c = true := by
  simp only [toText, append_assoc, cons_append, mem_append, mem_cons] at h
  rcases h with h | rfl | h | rfl | h | rfl | h
  all_goals first | exact isAddrChar_of_isDigitOf (isDigitOf_hex (isDigitOf_showNat c h)) | decide

theorem Ipv6Addr.isAddrChar_of_mem_toText {a : Ipv6Addr} {c} (h : c ∈ a.toText) : isAddrChar c = true := by
  unfold toText at h
  split at h
  · rcases mem_append.1 h with h | h
    · have hall : "::ffff:".toList.all isAddrChar = true := by decide
      exact all_eq_true.1 hall c h
    · exact Ipv4Addr.isAddrChar_of_mem_toText h
  · simp only [groupsText_eq] at h
    split at h
    · rcases mem_append.1 h with h | h
      · rcases mem_append.1 h with h | h
        · exact isAddrChar_of_mem_writeGroups h
        · have hc : c = ':' := by simpa using h
          rw [hc]
          decide
      · exact isAddrChar_of_mem_writeGroups h
    · exact isAddrChar_of_mem_writeGroups h

end Rove
