import ConstructTransport.Proxy.Request

/-! What a broken stream looks like on the far side of the proxy. A receive error
of the client ends pump A as a half-close does, and the upstream sees the end of
the request. An early return of `proxy_request` drops the client's stream, and
the client sees the end of the response. In runs without such an error, and
without such a return, an end on the far side means an end on the near side. -/

namespace ConstructTransport.Proxy

open Runs

variable {H T : Type} {steps : List (Step H T)} {s : Call H T}

/-! ### The upstream's view of the client -/

/-- Until the response has completed, the request body ends only with a clean
half-close, and never after a receive error. -/
structure HonestRequest (s : Call H T) : Prop where
  clean : s.download.ending ≠ some .clean → s.upload.body = .finished →
    ∃ lost, s.upload.pump = .ended .halfClosed lost
  failed : s.download.ending ≠ some .clean → ∀ lost, s.upload.pump = .ended .failed lost →
    s.upload.body ≠ .finished

/-- Pump A meets no receive error before the response has completed. -/
def NoClientError (s : Call H T) (l : Step H T) : Prop :=
  l = .up .recvError → s.download.ending = some .clean

theorem step_noClientError {s s' : Call H T} {l : Step H T} (h : proxyRequest s l = some s')
    (hc : NoClientError s l)
    (hf : ∀ lost, s.upload.pump = .ended .failed lost → s.download.ending = some .clean) :
    ∀ lost, s'.upload.pump = .ended .failed lost → s'.download.ending = some .clean := by
  intro lost hp
  rcases proxyRequest_cases h with ⟨k, u, rfl, hu, rfl⟩ | ⟨k, d, -, hd, rfl⟩ | ⟨-, -, rfl⟩ |
    ⟨-, -, rfl⟩
  · rcases (Upload.step_shared hu).2.2 lost hp with hp | rfl
    · exact hf lost hp
    · exact hc rfl
  · exact (Download.step_shared hd).1 (hf lost hp)
  · contradiction
  · exact hf lost hp

/-- Where no receive error strikes before the response is complete, the upstream
takes no broken client for a finished one. -/
theorem request_honest (h : run proxyRequest Call.start steps = some s)
    (hc : Along proxyRequest NoClientError Call.start steps) : HonestRequest s := by
  have hi := run_callInv h
  have hf := run_invariant_along
    (fun s : Call H T => ∀ lost, s.upload.pump = .ended .failed lost →
      s.download.ending = some .clean)
    (fun s l s' hf hc h => step_noClientError h hc hf) (by intro lost hp; cases hp) hc h
  have clean : s.download.ending ≠ some .clean → s.upload.body = .finished →
      ∃ lost, s.upload.pump = .ended .halfClosed lost := by
    intro hn hb
    obtain ⟨why, lost, hp⟩ := hi.upload.finished hb
    cases why with
    | halfClosed => exact ⟨lost, hp⟩
    | failed => exact absurd (hf lost hp) hn
    | aborted => exact absurd (hi.abort (hi.upload.aborted lost hp)) hn
    | upstreamGone =>
      obtain ⟨r, hr⟩ := hi.upload.gone lost hp
      exact absurd (hb.symm.trans hr) nofun
  refine ⟨clean, fun hn lost hp hb => ?_⟩
  obtain ⟨lost', hp'⟩ := clean hn hb
  exact absurd (hp.symm.trans hp') nofun

theorem request_honest_echo : ∃ s, run proxyRequest Call.start echoRun = some s ∧
    HonestRequest s := by
  obtain ⟨s, h, -⟩ := echoRun_ends
  refine ⟨s, h, request_honest h (along_of_forall fun l hl s he => ?_)⟩
  subst he
  simp [echoRun] at hl

/-- The client sends a message and its stream is reset; the upstream reads to the end. -/
theorem reset_client_looks_finished : ¬∀ (steps : List (Step ℕ ℕ)) (s : Call ℕ ℕ),
    run proxyRequest Call.start steps = some s → HonestRequest s := by
  intro hall
  have h := hall [.down .advance, .down .advance, .spawn, .up (.clientSend [0, 0, 0, 0, 9, 7]),
    .up (.recvData 6), .up .bodySend, .up (.clientEnd .failed), .up .recvError, .up .bodyFrame,
    .up (.upstreamRead 6), .up .bodyEnd, .up .upstreamReadEnd] _ rfl
  exact h.failed nofun [] rfl rfl

/-! ### The client's view of the upstream -/

/-- The stream to the client has ended cleanly, on purpose or by being dropped. A drop before the
head counts too, though the client then gets an error for its missing head. -/
def Download.Finished (d : Download H T) : Prop := .finish ∈ d.down ∨ .dropped ∈ d.down

/-- A clean end comes after all of a response that ended cleanly. -/
def HonestResponse (d : Download H T) : Prop := d.Finished → ∃ e, d.Complete e

/-- The function does not return early, unless for the finish itself. -/
def NoEarlyReturn (s : Call H T) (l : Step H T) : Prop :=
  l = .down .fail → s.download.main = .finishing

theorem Download.Given.not_finished {d : Download H T} {chunks : List (List UInt8)} {ts : List T}
    (h : d.Given chunks ts []) : ¬d.Finished := by
  obtain ⟨g, -, hd⟩ := h
  unfold Finished
  rw [hd]
  simp

theorem Download.not_finished_of_nil {d : Download H T} (h : d.down = []) : ¬d.Finished := by
  unfold Finished
  rw [h]
  simp

theorem step_noEarlyReturn {s s' : Call H T} {l : Step H T} (h : proxyRequest s l = some s')
    (hc : NoEarlyReturn s l)
    (hf : ∀ lost e, s.download.main = .returned lost (.error e) → e = .finish) :
    ∀ lost e, s'.download.main = .returned lost (.error e) → e = .finish := by
  intro lost e hm
  rcases proxyRequest_cases h with ⟨k, u, -, -, rfl⟩ | ⟨k, d, rfl, hd, rfl⟩ | ⟨-, -, rfl⟩ |
    ⟨-, -, rfl⟩
  · exact hf lost e hm
  · rcases (Download.step_shared hd).2.2 lost _ hm with hm | ⟨rfl, e', hr, he⟩
    · exact hf lost e hm
    · cases hr
      rw [hc rfl] at he
      cases he
      rfl
  · contradiction
  · cases hm

/-- Where the function does not return early, the client takes no broken response
for a finished one. -/
theorem response_honest (h : run proxyRequest Call.start steps = some s)
    (hc : Along proxyRequest NoEarlyReturn Call.start steps) : HonestResponse s.download := by
  intro hfin
  have shape := (run_callInv h).download.shape
  have herr := run_invariant_along
    (fun s : Call H T => ∀ lost e, s.download.main = .returned lost (.error e) → e = .finish)
    (fun s l s' hf hc h => step_noEarlyReturn h hc hf) (by intro lost e hm; cases hm) hc h
  cases hm : s.download.main with
  | dialing | handshaking | building | requesting =>
    rw [hm] at shape
    exact absurd hfin (Download.not_finished_of_nil shape.1)
  | heading g | responding g =>
    rw [hm] at shape
    exact absurd hfin (Download.not_finished_of_nil shape.1)
  | awaiting =>
    rw [hm] at shape
    obtain ⟨chunks, hg⟩ := shape
    exact absurd hfin hg.not_finished
  | forwarding rest =>
    rw [hm] at shape
    obtain ⟨-, chunks, hg⟩ := shape
    exact absurd hfin hg.not_finished
  | trailing t =>
    rw [hm] at shape
    obtain ⟨-, -, chunks, hg⟩ := shape
    exact absurd hfin hg.not_finished
  | finishing =>
    rw [hm] at shape
    obtain ⟨-, -, chunks, hg⟩ := shape
    exact absurd hfin hg.not_finished
  | aborting =>
    rw [hm] at shape
    exact ⟨_, shape⟩
  | returned lost result =>
    rw [hm] at shape
    cases result with
    | ok => exact ⟨_, shape⟩
    | error e =>
      cases herr lost e hm
      exact ⟨_, shape⟩

theorem response_honest_echo : ∃ s, run proxyRequest Call.start echoRun = some s ∧
    HonestResponse s.download := by
  obtain ⟨s, h, -⟩ := echoRun_ends
  refine ⟨s, h, response_honest h (along_of_forall fun l hl s he => ?_)⟩
  subst he
  simp [echoRun] at hl

/-- The upstream fails inside a message; the client's stream is dropped and so finished. -/
theorem broken_upstream_looks_finished : ¬∀ (steps : List (Step ℕ ℕ)) (s : Call ℕ ℕ),
    run proxyRequest Call.start steps = some s → HonestResponse s.download := by
  intro hall
  have h := hall [.down .advance, .down .advance, .spawn, .down (.respond 200), .down .advance,
    .down .advance, .down .advance, .down (.produce [0, 0, 0, 0, 9, 7]), .down (.frame 6),
    .down (.sendData 6), .down .advance, .down (.produceEnd .failed), .down .fail] _ rfl
  obtain ⟨e, he, -⟩ := h (.inr (by decide))
  contradiction

end ConstructTransport.Proxy
