/-
What the stream that `http_connect` returns delivers. The response head is read
together with whatever came in the same read, and `http_connect` keeps none of
it: `tunnel_bytes_exact_iff` says when that is a loss.
-/
import Rove.Outbound.Connect

namespace Rove.Outbound

open Rove.Util
open Model (Upstream)

/-- What an upstream sends after the head of its response. -/
def afterHead (response : Bytes) : Bytes :=
  match findSub headEnd response with
  | some start => response.drop (start + 4)
  | none => []

def HeadEndsRead (reads : List Bytes) : Prop :=
  ∀ start, findSub headEnd reads.flatten = some start → ∃ k, (reads.take k).flatten.length = start + 4

/-- A request that succeeds has read a head, and leaves what was not read. -/
theorem httpConnect_eq_ok {base64 up host port w w'}
    (h : (httpConnect base64 up host port w).2 = .ok ((), w')) :
    ∃ head, readHttpHeadWithRemainder 8192 w.reads = .ok head ∧ w'.reads = head.unread := by
  obtain ⟨_, w₁, hwrite, h⟩ := Talk.bind_eq_ok h
  obtain ⟨bs, w₂, hread, h⟩ := Talk.bind_eq_ok h
  obtain ⟨head, hhead, -, hunread⟩ := Talk.readHttpHead_eq_ok hread
  rw [Talk.writeAll_eq_ok hwrite] at hhead
  split at h
  · cases h
    exact ⟨head, hhead, hunread⟩
  · cases h

/-- When a request for a tunnel succeeds, its stream delivers exactly what
follows the head of the response if and only if no read returned the end of the
head together with bytes after it. -/
theorem tunnel_bytes_exact_iff {base64 : Bytes → Str} {up : Upstream} {host : Str} {port : Nat} {w w' : Wire}
    (hreads : ∀ r ∈ w.reads, r ≠ []) (hok : (httpConnect base64 up host port w).2 = .ok ((), w')) :
    w'.reads.flatten = afterHead w.reads.flatten ↔ HeadEndsRead w.reads := by
  obtain ⟨head, hhead, hunread⟩ := httpConnect_eq_ok hok
  rw [hunread, afterHead, HeadEndsRead]
  cases hfind : findSub headEnd w.reads.flatten with
  | none =>
    rw [readHttpHead_of_none hreads hfind] at hhead
    split at hhead
    · cases hhead
      simp
    · cases hhead
  | some start =>
    rw [readHttpHead_of_some hreads hfind] at hhead
    split at hhead
    · cases hhead
      have hle := length_of_findSub hfind
      dsimp only
      rw [← cutReads_append hle, List.self_eq_append_left, cutReads_eq_nil_iff (by omega) hle]
      refine ⟨fun h start' hstart => ?_, fun h => h start rfl⟩
      rwa [← Option.some.inj hstart]
    · cases hhead

/-- A response that ends without a blank line is taken like one that has it:
what counts is its first line. -/
theorem httpConnect_of_none {base64 up host port w}
    (hreads : ∀ r ∈ w.reads, r ≠ []) (hnone : findSub headEnd w.reads.flatten = none) :
    (∃ w', (httpConnect base64 up host port w).2 = .ok ((), w')) ↔
      w.breaksAfter ≠ some 0 ∧ w.reads.flatten.length ≤ 8192 ∧ http2xx w.reads.flatten = true := by
  have hread := @readHttpHead_of_none 8192 _ hreads hnone
  constructor
  · rintro ⟨w', h⟩
    obtain ⟨_, w₁, hwrite, h⟩ := Talk.bind_eq_ok h
    obtain ⟨bs, w₂, hbs, h⟩ := Talk.bind_eq_ok h
    obtain ⟨head, hhead, rfl, -⟩ := Talk.readHttpHead_eq_ok hbs
    rw [Talk.writeAll_eq_ok hwrite] at hhead
    refine ⟨fun hbreaks => ?_, ?_⟩
    · rw [Talk.writeAll, hbreaks] at hwrite
      cases hwrite
    · split at hread
      · next hlen =>
        obtain rfl := Except.ok.inj (hhead.symm.trans hread)
        rw [List.append_nil] at h
        split at h
        · next h2xx => exact ⟨hlen, h2xx⟩
        · cases h
      · cases hhead.symm.trans hread
  · rintro ⟨hbreaks, hlen, h2xx⟩
    rw [if_pos hlen] at hread
    obtain ⟨w₁, hwrite, hw₁⟩ := Talk.exists_writeAll (utf8Bytes (connectRequest base64 up host port)) hbreaks
    unfold httpConnect
    rw [Talk.bind_of_ok hwrite, Talk.bind_of_ok (Talk.readHttpHead_of_ok (by rw [hw₁]; exact hread)), List.append_nil,
      if_pos h2xx]
    exact ⟨_, rfl⟩

/-- An upstream that wants no credentials. -/
def openProxy : Upstream := ⟨.http, "proxy:8080", none, none, false, false⟩

/-- `HTTP/1.1 200\r\n\r\n`. -/
def tunnelResponse : Bytes := [72, 84, 84, 80, 47, 49, 46, 49, 32, 50, 48, 48, 13, 10, 13, 10]

theorem tunnel_bytes_exact_ownRead :
    let w : Wire := ⟨[tunnelResponse, [83, 83, 72]], none⟩
    (httpConnect (fun _ => []) openProxy "example" 22 w).2 = .ok ((), ⟨[[83, 83, 72]], none⟩) ∧
      ([[83, 83, 72]] : List Bytes).flatten = afterHead w.reads.flatten := by
  intro w
  have hok : (httpConnect (fun _ => []) openProxy "example" 22 w).2 = .ok ((), ⟨[[83, 83, 72]], none⟩) := rfl
  have hreads : ∀ r ∈ w.reads, r ≠ [] := by decide
  refine ⟨hok, (tunnel_bytes_exact_iff hreads hok).2 fun start hstart => ⟨1, ?_⟩⟩
  obtain rfl : 12 = start := Option.some.inj hstart
  rfl

/-- The greeting of the host behind the tunnel comes with the response head,
and is lost. -/
theorem greeting_lost_with_head :
    ∃ w', (httpConnect (fun _ => []) openProxy "example" 22 ⟨[tunnelResponse ++ [83, 83, 72]], none⟩).2 = .ok ((), w') ∧
      w'.reads.flatten = [] ∧ afterHead (tunnelResponse ++ [83, 83, 72]) = [83, 83, 72] :=
  ⟨_, rfl, rfl, rfl⟩

end Rove.Outbound
