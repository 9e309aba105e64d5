import ConstructTransport.Proxy.Request

/-! A proxied call comes to rest. Between two things that its peers do, only so many
steps can be taken that move anything, whichever they are. Once the client and the
upstream have both ended their streams, in whichever way, no part of the call waits
for another that waits for it: as long as the awaits do their work, it goes on until
the function has returned, pump A has ended and the upstream has read the end. -/

namespace ConstructTransport.Proxy

open Runs

variable {H T : Type}

/-! ### What is left to do -/

def Pump.left : Pump → ℕ
  | unspawned | receiving => 1
  | sending chunk => 3 + chunk.length
  | ended _ _ => 0

theorem Pump.left_pos {p : Pump} (h : ∀ why lost, p ≠ .ended why lost) : 0 < p.left := by
  cases p with
  | unspawned | receiving => exact Nat.one_pos
  | sending chunk => exact Nat.lt_add_right _ (by decide)
  | ended why lost => exact absurd rfl (h why lost)

def Body.left : Body → ℕ
  | streaming => 1
  | finished | dropped _ => 0

/-- A byte is read, sent to the channel, taken from it and read by the upstream. -/
def Upload.left (u : Upload) : ℕ :=
  4 * u.unread.length + u.pump.left + (u.queue.map fun chunk => 1 + chunk.length).sum +
    u.inFlight.length + u.body.left + if u.readToEnd then 0 else 1

namespace Main

/-- The awaits that are to come, if nothing is pending. The step that spawns pump A
gives it work to do. -/
def left : Main H T → ℕ
  | dialing => 10
  | handshaking => 9
  | building => 8
  | requesting => 6
  | heading _ => 5
  | responding _ => 4
  | forwarding rest => 4 + rest.length
  | trailing _ => 4
  | awaiting => 3
  | finishing => 2
  | aborting => 1
  | returned _ _ => 0

theorem left_pos {m : Main H T} (h : ∀ lost r, m ≠ .returned lost r) : 0 < m.left := by
  cases m with
  | returned lost r => exact absurd rfl (h lost r)
  | forwarding rest => exact Nat.lt_add_right _ (by decide)
  | _ => exact Nat.succ_pos _

end Main

def Download.left (d : Download H T) : ℕ :=
  3 * d.pending.length + d.main.left + if d.trailersTaken then 0 else 2

def Call.left (s : Call H T) : ℕ := s.upload.left + s.download.left

/-- Steps that move something, other than what the peers send and how they end. -/
def Moves (s : Call H T) : Step H T → Prop
  | .up (.clientSend _) | .up (.clientEnd _) => False
  | .up (.recvData n) | .up (.upstreamRead n) => 0 < n
  | .up .upstreamReadEnd => s.upload.readToEnd = false
  | .up _ => True
  | .down (.respond _) | .down (.produce _) | .down (.produceTrailers _)
  | .down (.produceEnd _) => False
  | .down (.frame n) | .down (.sendData n) => 0 < n
  | .down _ => True
  | .spawn | .abort => True

theorem upload_pays {s : Call H T} {u : Upload} {l : UploadStep} (hm : Moves s (.up l))
    (h : s.upload.step l = some u) : u.left < s.upload.left := by
  cases Upload.takes_of_step h with
  | clientSend | clientEnd => exact hm.elim
  | @recvData n hp hn =>
    have hpos : 0 < n := hm
    simp only [Upload.left, hp, Pump.left, List.length_take, List.length_drop]
    omega
  | recvNone hp | recvError hp =>
    simp only [Upload.left, hp, Pump.left]
    omega
  | bodySend hp =>
    simp only [Upload.left, hp, Pump.left, List.map_append, List.map_cons, List.map_nil,
      List.sum_append, List.sum_cons, List.sum_nil]
    omega
  | bodySendError hp =>
    simp only [Upload.left, hp, Pump.left]
    omega
  | cancelled hn he =>
    have hpos := Pump.left_pos he
    simp only [Upload.left, Pump.left] at hpos ⊢
    omega
  | bodyFrame _ hq =>
    simp only [Upload.left, hq, List.map_cons, List.sum_cons, List.length_append]
    omega
  | bodyEnd hb =>
    simp only [Upload.left, hb, Body.left]
    omega
  | bodyDrop hb =>
    simp only [Upload.left, hb, Body.left, List.map_nil, List.sum_nil]
    omega
  | @upstreamRead n hn =>
    have hpos : 0 < n := hm
    simp only [Upload.left, List.length_drop]
    omega
  | upstreamReadEnd =>
    have hread : s.upload.readToEnd = false := hm
    simp only [Upload.left, hread]
    simp

theorem advance_pays {d d' : Download H T} (h : d.advance = some d') : d'.left < d.left := by
  unfold Download.advance at h
  split at h
  · next hm => cases h; simp [Download.left, hm, Main.left]
  · next hm => cases h; simp [Download.left, hm, Main.left]
  · next hm =>
    obtain ⟨g, -, rfl⟩ := Option.map_eq_some_iff.mp h
    simp [Download.left, hm, Main.left]
  · next hm => cases h; simp [Download.left, hm, Main.left]
  · next hm => cases h; simp [Download.left, hm, Main.left]
  · next hm =>
    split_ifs at h
    split at h
    · next ht _ => cases h; simp [Download.left, hm, ht, Main.left]
    · cases h; simp [Download.left, hm, Main.left]
  · next hm => cases h; simp [Download.left, hm, Main.left]
  · next hm => cases h; simp [Download.left, hm, Main.left]
  · next hm => cases h; simp [Download.left, hm, Main.left]
  · cases h

theorem download_pays {s : Call H T} {d : Download H T} {l : DownloadStep H T}
    (hm : Moves s (.down l)) (h : s.download.step l = some d) : d.left < s.download.left := by
  cases Download.takes_of_step h with
  | respond | produce | produceTrailers | produceEnd => exact hm.elim
  | frame n hmain hn =>
    have hpos : 0 < n := hm
    simp only [Download.left, hmain, Main.left, List.length_take, List.length_drop]
    omega
  | sendData n hmain hn =>
    have hpos : 0 < n := hm
    simp only [Download.left, hmain, Main.left, List.length_drop]
    omega
  | advance hd => exact advance_pays hd
  | fail he =>
    have hpos := Main.left_pos (m := s.download.main) fun lost r hmain => by
      rw [hmain] at he
      cases he
    simp only [Download.left, Main.left] at hpos ⊢
    omega

theorem spawn_left (u : Upload) : u.spawn.left ≤ u.left + 1 := by
  unfold Upload.left Upload.spawn
  dsimp only [Pump.left]
  omega

theorem request_left {d : Download H T} (hm : d.main = .building) :
    d.request.left + 2 = d.left := by
  unfold Download.left Download.request
  rw [hm]
  dsimp only [Main.left]
  omega

theorem finished_left {d : Download H T} (hm : d.main = .aborting) :
    d.finished.left + 1 = d.left := by
  unfold Download.left Download.finished
  rw [hm]
  dsimp only [Main.left]
  omega

/-- Every step that moves something leaves less to do. -/
theorem step_pays (s : Call H T) (l : Step H T) (s' : Call H T) (hm : Moves s l)
    (h : proxyRequest s l = some s') : s'.left < s.left := by
  rcases proxyRequest_cases h with ⟨k, u, rfl, hu, rfl⟩ | ⟨k, d, rfl, hd, rfl⟩ | ⟨-, hmain, rfl⟩ |
    ⟨-, hmain, rfl⟩
  · exact Nat.add_lt_add_right (upload_pays hm hu) _
  · exact Nat.add_lt_add_left (download_pays hm hd) _
  · have hu := spawn_left s.upload
    have hd := request_left hmain
    simp only [Call.left]
    omega
  · have hd := finished_left hmain
    show s.upload.left + s.download.finished.left < s.upload.left + s.download.left
    omega

/-! ### What can be done next -/

/-- The upstream has answered before it ends, and pump A is spawned before it answers. -/
structure Begun (s : Call H T) : Prop where
  answered : s.download.ending ≠ none → s.download.head.isSome
  spawned : s.download.head.isSome ∨ s.download.main = .requesting → s.upload.pump ≠ .unspawned

theorem upload_spawned {u u' : Upload} {l : UploadStep} (h : u.step l = some u')
    (hs : u.pump ≠ .unspawned) : u'.pump ≠ .unspawned := by
  cases Upload.takes_of_step h with
  | clientSend | clientEnd | bodyFrame | bodyEnd | bodyDrop | upstreamRead | upstreamReadEnd =>
    exact hs
  | recvData | recvNone | recvError | bodySend | bodySendError | cancelled => exact nofun

theorem advance_begun {d d' : Download H T} (h : d.advance = some d') :
    d'.ending = d.ending ∧ d'.head = d.head ∧ d'.main ≠ .requesting := by
  unfold Download.advance at h
  split at h
  · cases h; exact ⟨rfl, rfl, nofun⟩
  · cases h; exact ⟨rfl, rfl, nofun⟩
  · obtain ⟨g, -, rfl⟩ := Option.map_eq_some_iff.mp h
    exact ⟨rfl, rfl, nofun⟩
  · cases h; exact ⟨rfl, rfl, nofun⟩
  · cases h; exact ⟨rfl, rfl, nofun⟩
  · split_ifs at h
    split at h <;> cases h <;> exact ⟨rfl, rfl, nofun⟩
  · cases h; exact ⟨rfl, rfl, nofun⟩
  · cases h; exact ⟨rfl, rfl, nofun⟩
  · cases h; exact ⟨rfl, rfl, nofun⟩
  · cases h

theorem download_begun {d d' : Download H T} {l : DownloadStep H T} (h : d.step l = some d') :
    (d'.ending ≠ none → d.ending ≠ none ∨ d'.head.isSome) ∧
      (d.head.isSome → d'.head.isSome) ∧
      (d'.head.isSome ∨ d'.main = .requesting → d.head.isSome ∨ d.main = .requesting) := by
  have ht := Download.takes_of_step h
  cases l with
  | respond g =>
    cases ht with
    | respond _ hm => exact ⟨.inl, fun _ => rfl, fun _ => .inr hm⟩
  | produce bytes =>
    cases ht
    exact ⟨.inl, id, id⟩
  | produceTrailers t =>
    obtain ⟨⟨hhead, -⟩, he⟩ := Option.ite_none_right_eq_some.mp h
    cases he
    exact ⟨fun _ => .inr hhead, id, id⟩
  | produceEnd how =>
    obtain ⟨⟨hhead, -⟩, he⟩ := Option.ite_none_right_eq_some.mp h
    cases he
    exact ⟨fun _ => .inr hhead, id, id⟩
  | frame n =>
    cases ht
    exact ⟨.inl, id, fun hr => hr.imp_right nofun⟩
  | sendData n =>
    cases ht
    exact ⟨.inl, id, fun hr => hr.imp_right nofun⟩
  | advance =>
    cases ht with
    | advance hd =>
      obtain ⟨he, hh, hm⟩ := advance_begun hd
      rw [he, hh]
      exact ⟨.inl, id, fun hr => .inl (hr.resolve_right hm)⟩
  | fail =>
    cases ht
    exact ⟨.inl, id, fun hr => hr.imp_right nofun⟩

theorem step_begun {s s' : Call H T} {l : Step H T} (hb : Begun s)
    (h : proxyRequest s l = some s') : Begun s' := by
  obtain ⟨answered, spawned⟩ := hb
  rcases proxyRequest_cases h with ⟨k, u, -, hu, rfl⟩ | ⟨k, d, -, hd, rfl⟩ | ⟨-, -, rfl⟩ |
    ⟨-, -, rfl⟩
  · exact ⟨answered, fun hr => upload_spawned hu (spawned hr)⟩
  · obtain ⟨he, hh, hr⟩ := download_begun hd
    exact ⟨fun hn => (he hn).elim (fun hn => hh (answered hn)) id, fun hs => spawned (hr hs)⟩
  · exact ⟨answered, fun _ => nofun⟩
  · exact ⟨answered, fun hr => spawned (.inl (hr.resolve_right nofun))⟩

theorem run_begun {steps : List (Step H T)} {s : Call H T}
    (h : run proxyRequest Call.start steps = some s) : Begun s :=
  run_invariant Begun (fun _ _ _ => step_begun)
    ⟨fun hn => absurd rfl hn, fun hr => absurd hr (by simp [Call.start, Download.start])⟩ h

/-- Steps that the call takes by itself: the upstream reads on, and no await fails but
that for a response which has failed. -/
def Works (s : Call H T) : Step H T → Prop
  | .up .bodyDrop => False
  | .down .fail => s.download.main = .awaiting
  | l => Moves s l

theorem Works.moves {s : Call H T} {l : Step H T} (h : Works s l) : Moves s l := by
  cases l with
  | up l => cases l <;> first | exact h | exact h.elim
  | down l => cases l <;> first | exact h | trivial
  | spawn | abort => exact h

/-- Nothing is left between the peers. -/
structure Settled (s : Call H T) : Prop where
  returned : ∃ lost r, s.download.main = .returned lost r
  pump : ∃ why lost, s.upload.pump = .ended why lost
  /-- All that the HTTP/2 client took is read, and its end, unless the body was dropped. -/
  body : s.upload.inFlight = [] ∧
    (s.upload.readToEnd = true ∨ ∃ lost, s.upload.body = .dropped lost)
  up : ∀ lost, s.upload.pump = .ended .halfClosed lost → s.upload.readToEnd = true →
    s.upload.received = s.upload.sent
  down : ∀ lost, s.download.main = .returned lost (.ok ()) →
    downBytes s.download.down = s.download.produced

theorem returned_of_stuck {s : Call H T} (hi : s.Inv) (hb : Begun s)
    (hend : s.download.ending ≠ none) (hstuck : ∀ l, Works s l → proxyRequest s l = none) :
    ∃ lost r, s.download.main = .returned lost r := by
  have stuck : ∀ l, Works s (.down l) → s.download.step l = none := fun l hw =>
    Option.map_eq_none_iff.mp (hstuck _ hw)
  have advances : s.download.advance = none := stuck .advance trivial
  cases hm : s.download.main with
  | returned lost r => exact ⟨lost, r, rfl⟩
  | dialing | handshaking | heading | responding | trailing | finishing =>
    simp [Download.advance, hm] at advances
  | building =>
    have := hstuck .spawn trivial
    simp [proxyRequest, hm] at this
  | requesting =>
    obtain ⟨g, hg⟩ := Option.isSome_iff_exists.mp (hb.answered hend)
    simp [Download.advance, hm, hg] at advances
  | aborting =>
    have := hstuck .abort trivial
    simp [proxyRequest, hm] at this
  | forwarding rest =>
    cases rest with
    | nil => simp [Download.advance, hm] at advances
    | cons b rest =>
      have := stuck (.sendData 1) Nat.one_pos
      simp [Download.step, hm] at this
  | awaiting =>
    cases hp : s.download.pending with
    | cons b rest =>
      have htaken : s.download.trailersTaken = false := by
        by_contra ht
        have := (hi.download.taken (Bool.not_eq_false _ ▸ ht)).1
        rw [hp] at this
        cases this
      have := stuck (.frame 1) Nat.one_pos
      simp [Download.step, hm, hp, htaken] at this
    | nil =>
      cases he : s.download.ending with
      | none => exact absurd he hend
      | some how =>
        cases how with
        | clean =>
          simp only [Download.advance, hm, hp, he, and_self, if_true] at advances
          split at advances <;> cases advances
        | failed =>
          have := stuck .fail hm
          simp [Download.step, hm, Main.error, he] at this

/-- Pump A does not stop before it ends: what it waits for has room, or goes on itself. -/
theorem pump_of_stuck {s : Call H T} (hi : s.Inv) (hs : s.upload.pump ≠ .unspawned)
    (hend : s.upload.ending ≠ none) (hstuck : ∀ l, Works s l → proxyRequest s l = none) :
    ∃ why lost, s.upload.pump = .ended why lost := by
  have stuck : ∀ l, Works s (.up l) → s.upload.step l = none := fun l hw =>
    Option.map_eq_none_iff.mp (hstuck _ hw)
  cases hp : s.upload.pump with
  | ended why lost => exact ⟨why, lost, rfl⟩
  | unspawned => exact absurd hp hs
  | receiving =>
    cases hu : s.upload.unread with
    | cons b rest =>
      have := stuck (.recvData 1) Nat.one_pos
      simp [Upload.step, hp, hu] at this
    | nil =>
      cases he : s.upload.ending with
      | none => exact absurd he hend
      | some how =>
        cases how with
        | clean =>
          have := stuck .recvNone trivial
          simp [Upload.step, hp, hu, he] at this
        | failed =>
          have := stuck .recvError trivial
          simp [Upload.step, hp, he] at this
  | sending chunk =>
    cases hb : s.upload.body with
    | finished =>
      obtain ⟨why, lost, he⟩ := hi.upload.finished hb
      cases hp.symm.trans he
    | dropped lost =>
      have := stuck .bodySendError trivial
      simp [Upload.step, hp, hb] at this
    | streaming =>
      -- either the channel has room, or it has a chunk to give
      cases hq : s.upload.queue with
      | nil =>
        have := stuck .bodySend trivial
        simp [Upload.step, hp, hb, hq, bodySlots] at this
      | cons front queue =>
        have := stuck .bodyFrame trivial
        simp [Upload.step, hb, hq] at this

theorem body_of_stuck {s : Call H T} {why : PumpEnd} {lost : List UInt8}
    (hp : s.upload.pump = .ended why lost) (hstuck : ∀ l, Works s l → proxyRequest s l = none) :
    s.upload.inFlight = [] ∧
      (s.upload.readToEnd = true ∨ ∃ lost, s.upload.body = .dropped lost) := by
  have stuck : ∀ l, Works s (.up l) → s.upload.step l = none := fun l hw =>
    Option.map_eq_none_iff.mp (hstuck _ hw)
  have hread : s.upload.inFlight = [] := by
    cases hf : s.upload.inFlight with
    | nil => rfl
    | cons b rest =>
      have := stuck (.upstreamRead 1) Nat.one_pos
      simp [Upload.step, hf] at this
  refine ⟨hread, ?_⟩
  cases hb : s.upload.body with
  | dropped lost => exact .inr ⟨lost, rfl⟩
  | finished =>
    refine .inl (Bool.not_eq_false _ ▸ fun hr => ?_)
    have := stuck .upstreamReadEnd hr
    simp [Upload.step, hb, hread] at this
  | streaming =>
    cases hq : s.upload.queue with
    | nil =>
      have := stuck .bodyEnd trivial
      simp [Upload.step, hb, hq, hp] at this
    | cons front queue =>
      have := stuck .bodyFrame trivial
      simp [Upload.step, hb, hq] at this

/-! ### The call comes to rest -/

/-- Both peers have ended their streams. -/
structure Ended (s : Call H T) : Prop where
  client : s.upload.ending ≠ none
  upstream : s.download.ending ≠ none

/-- A stream that has ended stays so. -/
theorem ending_kept {s s' : Call H T} {l : Step H T} (h : proxyRequest s l = some s') :
    (s.upload.ending ≠ none → s'.upload.ending ≠ none) ∧
      (s.download.ending ≠ none → s'.download.ending ≠ none) := by
  rcases proxyRequest_cases h with ⟨k, u, -, hu, rfl⟩ | ⟨k, d, -, hd, rfl⟩ | ⟨-, -, rfl⟩ |
    ⟨-, -, rfl⟩
  · refine ⟨fun client => ?_, id⟩
    cases Upload.takes_of_step hu with
    | clientEnd => exact nofun
    | _ => exact client
  · refine ⟨id, fun upstream => ?_⟩
    cases Download.takes_of_step hd with
    | produceTrailers | produceEnd => exact nofun
    | advance hd => exact (advance_begun hd).1 ▸ upstream
    | _ => exact upstream
  · exact ⟨id, id⟩
  · exact ⟨id, id⟩

theorem step_ended {s s' : Call H T} {l : Step H T} (he : Ended s)
    (h : proxyRequest s l = some s') : Ended s' :=
  ⟨(ending_kept h).1 he.client, (ending_kept h).2 he.upstream⟩

theorem settled_of_stuck {s : Call H T} (hi : s.Inv) (hb : Begun s) (he : Ended s)
    (hstuck : ∀ l, Works s l → proxyRequest s l = none) : Settled s := by
  obtain ⟨lost, r, hm⟩ := returned_of_stuck hi hb he.upstream hstuck
  obtain ⟨why, left, hp⟩ :=
    pump_of_stuck hi (hb.spawned (.inl (hb.answered he.upstream))) he.client hstuck
  refine ⟨⟨lost, r, hm⟩, ⟨why, left, hp⟩, body_of_stuck hp hstuck,
    fun _ => hi.upload.received_all, fun lost' hm' => ?_⟩
  have shape := hi.download.shape
  rw [hm'] at shape
  obtain ⟨-, chunks, hc, hg⟩ := shape
  rw [hg.bytes, hc]
  simp [downBytes]

end ConstructTransport.Proxy
