import ConstructTransport.Proxy.Request

/-! Whether pump A outlives the call. Of all returns behind its spawn only the
normal one aborts it. An early return drops the task's handle and leaves the task
as it is, waiting for a client that may send nothing more. -/

namespace ConstructTransport.Proxy

open Runs

variable {H T : Type} {steps : List (Step H T)} {s : Call H T}

/-- Pump A has no more to do. -/
def Pump.Over (p : Pump) : Prop := p = .unspawned ∨ ∃ why lost, p = .ended why lost

/-- Once the function has returned, pump A is over or aborted. -/
def Released (s : Call H T) : Prop :=
  ∀ lost r, s.download.main = .returned lost r →
    s.upload.pump.Over ∨ s.upload.abortRequested = true

/-- An await fails only when pump A is over. -/
def FailsLate (s : Call H T) (l : Step H T) : Prop := l = .down .fail → s.upload.pump.Over

theorem Upload.step_over {u u' : Upload} {l : UploadStep} (h : u.step l = some u')
    (ho : u.pump.Over) : u'.pump.Over := by
  rcases ho with hu | ⟨why, lost, he⟩
  · exact .inl ((step_shared h).2.1 hu)
  · exact .inr ⟨why, lost, step_ended h he⟩

/-- Only the last statement before `Ok` aborts. -/
def AbortsLast (s : Call H T) : Prop :=
  s.upload.abortRequested = true → ∃ lost, s.download.main = .returned lost (.ok ())

theorem step_abortsLast {s s' : Call H T} {l : Step H T} (h : proxyRequest s l = some s')
    (ha : AbortsLast s) : AbortsLast s' := by
  intro hr
  rcases proxyRequest_cases h with ⟨k, u, -, hu, rfl⟩ | ⟨k, d, -, hd, rfl⟩ | ⟨-, hm, rfl⟩ |
    ⟨-, -, rfl⟩
  · exact ha ((Upload.step_shared hu).1 ▸ hr)
  · obtain ⟨lost, hm⟩ := ha hr
    exact ⟨lost, Download.step_returned hd hm⟩
  · obtain ⟨lost, hm'⟩ := ha hr
    exact absurd (hm.symm.trans hm') nofun
  · exact ⟨[], rfl⟩

theorem step_released_iff {s s' : Call H T} {l : Step H T} (ha : AbortsLast s) (hr : Released s)
    (h : proxyRequest s l = some s') : Released s' ↔ FailsLate s l := by
  rcases proxyRequest_cases h with ⟨k, u, rfl, hu, rfl⟩ | ⟨k, d, rfl, hd, rfl⟩ | ⟨rfl, hm, rfl⟩ |
    ⟨rfl, hm, rfl⟩
  · refine iff_of_true (fun lost r hm => ?_) nofun
    rcases hr lost r hm with ho | hab
    · exact .inl (Upload.step_over hu ho)
    · exact .inr ((Upload.step_shared hu).1.trans hab)
  · by_cases hk : k = .fail
    · subst hk
      obtain ⟨lost, e, hn, hm⟩ := Download.step_fail hd
      constructor
      · intro hr' _
        refine (hr' lost _ hm).resolve_right fun hab => ?_
        obtain ⟨lost', hm'⟩ := ha hab
        exact hn lost' _ hm'
      · exact fun hl _ _ _ => .inl (hl rfl)
    · refine iff_of_true (fun lost r hm => ?_) fun he => absurd (Step.down.inj he) hk
      rcases (Download.step_shared hd).2.2 lost r hm with hm | ⟨he, -⟩
      · exact hr lost r hm
      · exact absurd he hk
  · exact iff_of_true nofun nofun
  · exact iff_of_true (fun _ _ _ => .inr rfl) nofun

/-- Pump A is released at all times exactly where no await fails before it is over. -/
theorem pump_released_iff (h : run proxyRequest Call.start steps = some s) :
    Throughout proxyRequest Released Call.start steps ↔
      Along proxyRequest FailsLate Call.start steps :=
  throughout_iff_along AbortsLast Released (fun _ _ _ ha hs => step_abortsLast hs ha)
    (fun _ _ _ ha hr hs => step_released_iff ha hr hs) nofun nofun h

theorem pump_released_echo : (∃ s, run proxyRequest Call.start echoRun = some s) ∧
    Throughout proxyRequest Released Call.start echoRun := by
  obtain ⟨s, h, -⟩ := echoRun_ends
  refine ⟨⟨s, h⟩, (pump_released_iff h).mpr (along_of_forall fun l hl s he => ?_)⟩
  subst he
  simp [echoRun] at hl

/-- The upstream breaks off its response while pump A waits for the client. -/
theorem early_return_leaves_pump : ¬∀ (steps : List (Step ℕ ℕ)) (s : Call ℕ ℕ),
    run proxyRequest Call.start steps = some s →
    Throughout proxyRequest Released Call.start steps := by
  intro hall
  obtain ⟨s, h, hm, hp, ha⟩ : ∃ s : Call ℕ ℕ, run proxyRequest Call.start [.down .advance,
      .down .advance, .spawn, .up (.clientSend [0, 0, 0, 0, 1, 7]), .up (.recvData 6),
      .up .bodySend, .down (.respond 200), .down .advance, .down .advance, .down .advance,
      .down (.produceEnd .failed), .down .fail] = some s ∧
      s.download.main = .returned [] (.error .bodyFrame) ∧ s.upload.pump = .receiving ∧
      s.upload.abortRequested = false := ⟨_, rfl, rfl, rfl, rfl⟩
  rcases (hall _ s h).last h _ _ hm with (ho | ⟨why, lost, ho⟩) | hab
  · exact absurd (hp.symm.trans ho) nofun
  · exact absurd (hp.symm.trans ho) nofun
  · exact absurd (ha.symm.trans hab) nofun

end ConstructTransport.Proxy
