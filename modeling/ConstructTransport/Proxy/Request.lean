import ConstructTransport.Basic.Runs
import ConstructTransport.Grpc.Frame
import ConstructTransport.Proxy.Download

/-! A proxied call as a whole. Its two halves share two steps: the function spawns
pump A when it submits the request, and aborts it when the response has been
forwarded to its end. In every reachable state each side has a prefix of what
the other sent, so the messages on the far side are those of the near side. -/

namespace ConstructTransport.Proxy

open Runs

variable {H T : Type}

structure Call (H T : Type) where
  upload : Upload
  download : Download H T

inductive Step (H T : Type)
  | up (l : UploadStep)
  | down (l : DownloadStep H T)
  | spawn
  | abort
  deriving DecidableEq, Repr

def proxyRequest (s : Call H T) : Step H T → Option (Call H T)
  | .up l => (s.upload.step l).map fun u => { s with upload := u }
  | .down l => (s.download.step l).map fun d => { s with download := d }
  | .spawn =>
    match s.download.main with
    | .building => some ⟨s.upload.spawn, s.download.request⟩
    | _ => none
  | .abort =>
    match s.download.main with
    | .aborting => some ⟨s.upload.abort, s.download.finished⟩
    | _ => none

def Call.start : Call H T := ⟨Upload.start, Download.start⟩

theorem proxyRequest_cases {s s' : Call H T} {l : Step H T} (h : proxyRequest s l = some s') :
    (∃ k u, l = .up k ∧ s.upload.step k = some u ∧ s' = { s with upload := u }) ∨
    (∃ k d, l = .down k ∧ s.download.step k = some d ∧ s' = { s with download := d }) ∨
    (l = .spawn ∧ s.download.main = .building ∧ s' = ⟨s.upload.spawn, s.download.request⟩) ∨
    (l = .abort ∧ s.download.main = .aborting ∧ s' = ⟨s.upload.abort, s.download.finished⟩) := by
  cases l with
  | up k =>
    obtain ⟨u, hu, rfl⟩ := Option.map_eq_some_iff.mp h
    exact .inl ⟨k, u, rfl, hu, rfl⟩
  | down k =>
    obtain ⟨d, hd, rfl⟩ := Option.map_eq_some_iff.mp h
    exact .inr (.inl ⟨k, d, rfl, hd, rfl⟩)
  | spawn =>
    simp only [proxyRequest] at h
    split at h
    · next hm =>
      cases h
      exact .inr (.inr (.inl ⟨rfl, hm, rfl⟩))
    · contradiction
  | abort =>
    simp only [proxyRequest] at h
    split at h
    · next hm =>
      cases h
      exact .inr (.inr (.inr ⟨rfl, hm, rfl⟩))
    · contradiction

structure Call.Inv (s : Call H T) : Prop where
  upload : s.upload.Inv
  download : s.download.Inv
  unspawned : s.download.main.Early → s.upload.pump = .unspawned
  /-- Pump A is aborted only after the upstream's response has ended. -/
  abort : s.upload.abortRequested = true → s.download.ending = some .clean

theorem step_callInv {s s' : Call H T} {l : Step H T} (hi : s.Inv)
    (h : proxyRequest s l = some s') : s'.Inv := by
  obtain ⟨upload, download, unspawned, abort⟩ := hi
  rcases proxyRequest_cases h with ⟨k, u, -, hu, rfl⟩ | ⟨k, d, -, hd, rfl⟩ | ⟨-, hm, rfl⟩ |
    ⟨-, hm, rfl⟩
  · obtain ⟨ha, hp, -⟩ := Upload.step_shared hu
    exact ⟨Upload.step_inv upload hu, download, fun he => hp (unspawned he),
      fun hr => abort (ha ▸ hr)⟩
  · obtain ⟨hc, he, -⟩ := Download.step_shared hd
    exact ⟨upload, Download.step_inv download hd, fun h' => unspawned (he h'),
      fun hr => hc (abort hr)⟩
  · refine ⟨Upload.spawn_inv upload (unspawned ?_), Download.request_inv download hm, False.elim,
      abort⟩
    rw [hm]
    trivial
  · refine ⟨Upload.abort_inv upload, Download.finished_inv download hm, False.elim, fun _ => ?_⟩
    have := download.shape
    rw [hm] at this
    exact this.1

theorem run_callInv {steps : List (Step H T)} {s : Call H T}
    (h : run proxyRequest Call.start steps = some s) : s.Inv :=
  run_invariant Call.Inv (fun _ _ _ => step_callInv)
    ⟨Upload.start_inv, Download.start_inv, fun _ => rfl, fun hr => absurd hr Bool.false_ne_true⟩ h

/-! ### Transparency -/

/-- What the far side of each direction has got of the near side. -/
structure Transparent (s : Call H T) : Prop where
  received_prefix : s.upload.received <+: s.upload.sent
  down_prefix : downBytes s.download.down <+: s.download.produced
  /-- A clean half-close that was read to its end brought everything. -/
  received_all : ∀ lost, s.upload.pump = .ended .halfClosed lost → s.upload.readToEnd = true →
    s.upload.received = s.upload.sent
  /-- The head, all of the body, the trailers if there are any, the end, and nothing more. -/
  down_all : ∀ lost, s.download.main = .returned lost (.ok ()) →
    ∃ (h : H) (chunks : List (List UInt8)),
      s.download.head = some h ∧ chunks.flatten = s.download.produced ∧
      s.download.down = .head h ::
        (chunks.map .data ++ (s.download.trailers.toList.map .trailers ++ [.finish]))
  received_messages : Grpc.messages s.upload.received <+: Grpc.messages s.upload.sent
  down_messages : Grpc.messages (downBytes s.download.down) <+: Grpc.messages s.download.produced
  all_messages : ∀ lost, s.download.main = .returned lost (.ok ()) →
    Grpc.messages (downBytes s.download.down) = Grpc.messages s.download.produced

/-- The proxy is transparent in every reachable state. -/
theorem proxy_request_transparent {steps : List (Step H T)} {s : Call H T}
    (h : run proxyRequest Call.start steps = some s) : Transparent s := by
  have hi := run_callInv h
  have complete : ∀ lost, s.download.main = .returned lost (.ok ()) →
      s.download.Complete .finish := by
    intro lost hm
    have := hi.download.shape
    rwa [hm] at this
  refine ⟨hi.upload.received_prefix, hi.download.down_prefix, fun lost => hi.upload.received_all,
    fun lost hm => ?_, Grpc.messages_prefix hi.upload.received_prefix,
    Grpc.messages_prefix hi.download.down_prefix, fun lost hm => ?_⟩
  · obtain ⟨-, chunks, hc, g, hg, hd⟩ := complete lost hm
    exact ⟨g, chunks, hg, hc, hd⟩
  · obtain ⟨-, chunks, hc, hg⟩ := complete lost hm
    rw [hg.bytes, hc]
    simp [downBytes]

/-- One message each way, in chunks that cut both, and the end of both streams. -/
def echoRun : List (Step ℕ ℕ) :=
  [.down .advance, .down .advance, .spawn,
    .up (.clientSend [0, 0, 0, 0, 1, 7]), .up (.recvData 2), .up .bodySend, .up (.recvData 4),
    .up (.clientEnd .clean), .up .bodyFrame, .up .bodySend, .up .recvNone, .up .bodyFrame,
    .up (.upstreamRead 5), .up (.upstreamRead 1), .up .bodyEnd, .up .upstreamReadEnd,
    .down (.respond 200), .down .advance, .down .advance, .down .advance,
    .down (.produce [0, 0, 0, 0, 1, 7]), .down (.frame 4), .down (.produceTrailers 0),
    .down (.sendData 4), .down .advance, .down (.frame 2), .down (.sendData 2), .down .advance,
    .down .advance, .down .advance, .down .advance, .down .advance, .abort]

theorem echoRun_ends : ∃ s, run proxyRequest Call.start echoRun = some s ∧
    s.upload.received = [0, 0, 0, 0, 1, 7] ∧ s.upload.readToEnd = true ∧
    s.download.main = .returned [] (.ok ()) :=
  ⟨_, rfl, rfl, rfl, rfl⟩

theorem proxy_request_transparent_echo : ∃ s, run proxyRequest Call.start echoRun = some s ∧
    s.upload.received = [0, 0, 0, 0, 1, 7] ∧ s.upload.readToEnd = true ∧
    s.download.main = .returned [] (.ok ()) ∧ Transparent s := by
  obtain ⟨s, h, hr, he, hm⟩ := echoRun_ends
  exact ⟨s, h, hr, he, hm, proxy_request_transparent h⟩

end ConstructTransport.Proxy
