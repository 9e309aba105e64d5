import ConstructTransport.Datagram.ObfSocket
import ConstructTransport.Dial.Endpoints
import ConstructTransport.Migration.Rebind

/-! What a connection's datagrams look like on the wire. The first socket is built
by the way the client connected, every later one from the recipe the client
keeps. The two agree, so all sockets of a connection have the address family of
its peer and the obfuscation it began with. -/

namespace ConstructTransport.Migration

open Checked Datagram Dial Interleaving Runs

/-! ### The construction sites -/

/-- `bind_endpoint`, by the socket it runs on. -/
def bindEndpoint (addr : SocketAddr) (port : UInt16) : Socket := clientSocket addr none port

/-- `obfuscated_client_endpoint`, by the socket it runs on. -/
def obfuscatedClientEndpoint (bind : SocketAddr) (obf : Salamander) (port : UInt16) : Socket :=
  clientSocket bind (some obf) port

def openPlain (addr : SocketAddr) (port : UInt16) : Socket × SocketRecipe :=
  let recipe : SocketRecipe := ⟨bindAddrFor addr, none⟩
  (bindEndpoint recipe.bind port, recipe)

def openObfuscated (obf : Salamander) (addr : SocketAddr) (port : UInt16) :
    Socket × SocketRecipe :=
  let recipe : SocketRecipe := ⟨bindAddrFor addr, some obf⟩
  (obfuscatedClientEndpoint recipe.bind obf port, recipe)

/-- A client on the socket it was opened with, before any migration. -/
def connected (client : QuicClient) (first : Socket) : Config Endpoint Phase :=
  ⟨{ Endpoint.opened client.recipe 0 with sockets := [first] }, []⟩

/-- A datagram leaves through the wrapper, if there is one, else as it is. -/
def Socket.trySend (blake2b256 : Blake2b256) (socket : Socket) (salt : Vector UInt8 saltLen)
    (transmit : Transmit) : Except Panic Transmit :=
  match socket.obf with
  | none => .ok transmit
  | some obf => ObfuscatedUdpSocket.trySend blake2b256 obf salt transmit

inductive Family
  | v4
  | v6
  deriving DecidableEq, Repr

def family (addr : SocketAddr) : Family :=
  match addr.ip with
  | .v4 _ => .v4
  | .v6 _ => .v6

theorem family_bindAddrFor (peer : SocketAddr) : family (bindAddrFor peer) = family peer := by
  unfold family bindAddrFor
  cases peer.ip <;> rfl

theorem family_of_ip {a b : SocketAddr} (h : a.ip = b.ip) : family a = family b := by
  unfold family
  rw [h]

/-! ### One recipe -/

/-- Every socket is one that the recipe builds. -/
structure Endpoint.Uniform (recipe : SocketRecipe) (e : Endpoint) : Prop where
  recipe_eq : e.recipe = recipe
  built : ∀ socket ∈ e.sockets, socket.obf = recipe.obf ∧ socket.addr.ip = recipe.bind.ip

theorem uniform_handle {recipe : SocketRecipe} {e e' : Endpoint} {ev : Event}
    (hu : e.Uniform recipe) (h : e.handle ev = some e') : e'.Uniform recipe := by
  cases ev with
  | read k ours =>
    unfold Endpoint.handle at h
    cases hk : e.sockets[k]? with
    | none => simp [hk] at h
    | some socket =>
      simp only [hk] at h
      split at h
      · cases h
        refine ⟨hu.recipe_eq, fun other hother => ?_⟩
        rcases List.mem_or_eq_of_mem_set hother with hmem | rfl
        · exact hu.built other hmem
        · exact hu.built socket (List.mem_of_getElem? hk)
      · contradiction
  | account =>
    unfold Endpoint.handle at h
    cases hi : e.inbox with
    | nil => simp [hi] at h
    | cons j inbox =>
      simp only [hi] at h
      cases h
      exact ⟨hu.recipe_eq, hu.built⟩
  | abandon => cases h; exact ⟨hu.recipe_eq, hu.built⟩
  | close => cases h; exact ⟨hu.recipe_eq, hu.built⟩
  | tick d => cases h; exact ⟨hu.recipe_eq, hu.built⟩

theorem uniform_rebind {recipe : SocketRecipe} {e e' : Endpoint} {p p' : Phase} {a : Act}
    (hu : e.Uniform recipe) (h : rebind e p a = some (e', p')) : e'.Uniform recipe := by
  rcases rebind_cases h with ⟨-, rfl, -⟩ | ⟨n, port, -, -, rfl⟩ | ⟨n, k, -, -, rfl⟩ |
    ⟨w, check, -, rfl, -⟩ | ⟨rfl, -⟩
  · exact hu
  · refine ⟨hu.recipe_eq, fun socket hs => ?_⟩
    rcases List.mem_append.mp hs with hs | hs
    · exact hu.built socket hs
    · rw [List.mem_singleton.mp hs, ← hu.recipe_eq]
      exact ⟨rfl, rfl⟩
  · exact ⟨hu.recipe_eq, hu.built⟩
  · exact hu
  · exact hu

theorem run_uniform {recipe : SocketRecipe} {s s' : Config Endpoint Phase}
    {labels : List (Label Event Act)} (hu : s.shared.Uniform recipe)
    (h : run client.step s labels = some s') : s'.shared.Uniform recipe := by
  refine run_invariant (fun s : Config Endpoint Phase => s.shared.Uniform recipe)
    (fun s l s' hu hs => ?_) hu h
  rcases client.step_cases hs with ⟨ev, e, -, he, rfl⟩ | ⟨-, rfl⟩ | ⟨i, a, p, e, q, -, -, ha, rfl⟩
  · exact uniform_handle hu he
  · exact hu
  · exact uniform_rebind hu ha

/-! ### On the wire -/

/-- A plain connection sends what it is handed; an obfuscated one a salted
datagram that its own key turns back. -/
def Sends (blake2b256 : Blake2b256) (obf : Option Salamander) (salt : Vector UInt8 saltLen)
    (transmit wire : Transmit) : Prop :=
  match obf with
  | none => wire = transmit
  | some obf =>
    wire = { transmit with contents := wire.contents, segmentSize := none } ∧
    wire.contents.length = saltLen + transmit.contents.length ∧
    wire.contents.take saltLen = salt.toList ∧
    ∃ rest, obf.deobfuscateInPlace blake2b256 wire.contents wire.contents.length =
      .ok (transmit.contents ++ rest, some transmit.contents.length)

/-- The stack polls sockets that exist; each of them, and each it polled before,
has the family of the peer and sends in one shape. -/
structure Shaped (blake2b256 : Blake2b256) (obf : Option Salamander) (peer : SocketAddr)
    (e : Endpoint) : Prop where
  polled_lt : ∀ k, e.Polled k → k < e.sockets.length
  family_eq : ∀ socket ∈ e.sockets, family socket.addr = family peer
  sends : ∀ socket ∈ e.sockets, ∀ salt transmit, ∃ wire,
    socket.trySend blake2b256 salt transmit = .ok wire ∧ Sends blake2b256 obf salt transmit wire

theorem trySend_sends (blake2b256 : Blake2b256) (socket : Socket) (salt : Vector UInt8 saltLen)
    (transmit : Transmit) : ∃ wire, socket.trySend blake2b256 salt transmit = .ok wire ∧
      Sends blake2b256 socket.obf salt transmit wire := by
  unfold Socket.trySend
  cases socket.obf with
  | none => exact ⟨transmit, rfl, rfl⟩
  | some obf =>
    refine ⟨_, ObfuscatedUdpSocket.trySend_eq blake2b256 obf salt transmit, rfl, ?_, ?_, ?_⟩
    · exact obf.datagram_length blake2b256 salt transmit.contents
    · exact List.take_left' salt.length_toList
    · obtain ⟨rest, hr⟩ := obf.deobfuscateInPlace_datagram blake2b256 salt transmit.contents []
      rw [List.append_nil, ← obf.datagram_length blake2b256 salt transmit.contents] at hr
      exact ⟨rest, hr⟩

theorem Endpoint.Uniform.shaped {obf : Option Salamander} {peer : SocketAddr} {e : Endpoint}
    (hu : e.Uniform ⟨bindAddrFor peer, obf⟩) (hs : e.Sound) (blake2b256 : Blake2b256) :
    Shaped blake2b256 obf peer e := by
  refine ⟨hs.polled_lt, fun socket hmem => ?_, fun socket hmem salt transmit => ?_⟩
  · rw [family_of_ip (hu.built socket hmem).2, family_bindAddrFor]
  · obtain ⟨wire, hw, hsends⟩ := trySend_sends blake2b256 socket salt transmit
    rw [(hu.built socket hmem).1] at hsends
    exact ⟨wire, hw, hsends⟩

theorem connected_inv (client : QuicClient) (first : Socket) :
    ClientInv (connected client first) := by
  refine System.inv_start ⟨?_, fun k hk => absurd hk List.not_mem_nil⟩
  rintro k (rfl | hk)
  · exact Nat.one_pos
  · contradiction

theorem connected_shaped {obf : Option Salamander} {c : QuicClient} {first : Socket}
    {labels : List (Label Event Act)} {s : Config Endpoint Phase}
    (hr : c.recipe = ⟨bindAddrFor c.addr, obf⟩) (hobf : first.obf = obf)
    (hip : first.addr.ip = (bindAddrFor c.addr).ip)
    (h : run client.step (connected c first) labels = some s) (blake2b256 : Blake2b256) :
    Shaped blake2b256 obf c.addr s.shared := by
  have hstart : (connected c first).shared.Uniform ⟨bindAddrFor c.addr, obf⟩ := by
    refine ⟨hr, fun socket hmem => ?_⟩
    rw [List.mem_singleton.mp hmem]
    exact ⟨hobf, hip⟩
  have hinv := run_invariant ClientInv (fun _ _ _ => step_clientInv) (connected_inv c first) h
  exact (run_uniform hstart h).shaped hinv.shared blake2b256

/-- A client's datagrams keep one shape, whatever address won and however often
and with what outcome it migrates. -/
theorem datagrams_keep_shape {ε : Type} (blake2b256 : Blake2b256) (net : Network ε) (pace : Pace)
    (port : UInt16) (labels : List (Label Event Act)) (s : Config Endpoint Phase) :
    (∀ c events, connect net pace = .ok (.ok c, events) →
      (openPlain c.addr port).2 = c.recipe ∧
      (run client.step (connected c (openPlain c.addr port).1) labels = some s →
        Shaped blake2b256 none c.addr s.shared)) ∧
    ∀ psk c events, connectObfuscated psk net pace = .ok (.ok c, events) →
      (openObfuscated ⟨psk⟩ c.addr port).2 = c.recipe ∧
      (run client.step (connected c (openObfuscated ⟨psk⟩ c.addr port).1) labels = some s →
        Shaped blake2b256 (some ⟨psk⟩) c.addr s.shared) := by
  refine ⟨fun c events hc => ?_, fun psk c events hc => ?_⟩
  · have hr := connectWith_recipe hc
    exact ⟨hr.symm, fun h => connected_shaped hr rfl rfl h blake2b256⟩
  · have hr := connectWith_recipe hc
    exact ⟨hr.symm, fun h => connected_shaped hr rfl rfl h blake2b256⟩

/-- Every name resolves to one address, and the first attempt there succeeds. -/
def answering (addr : SocketAddr) : Network Unit where
  config := .ok ()
  lookup := some (.ok [addr])
  attempt _ := ⟨.ok (), .ok (), some (.ok ()), .ok (), 0⟩

/-- An obfuscated client that was refused one socket and migrated to the next. -/
theorem datagrams_keep_shape_migrated :
    Shaped (fun salted => Vector.replicate keyLen salted.sum) (some ⟨[7]⟩) ⟨.v6 1, 443⟩
      ⟨⟨⟨.v6 0, 0⟩, some ⟨[7]⟩⟩, [⟨⟨.v6 0, 40000⟩, some ⟨[7]⟩, 0, 0⟩,
        ⟨⟨.v6 0, 40001⟩, some ⟨[7]⟩, 0, 0⟩], 1, some 0, [], 0, false, 0⟩ := by
  obtain ⟨events, hc⟩ : ∃ events, connectObfuscated [7] (answering ⟨.v6 1, 443⟩) ⟨0, fun _ => 0⟩ =
      .ok (.ok ⟨⟨.v6 1, 443⟩, ⟨⟨.v6 0, 0⟩, some ⟨[7]⟩⟩⟩, events) := ⟨_, rfl⟩
  exact (((datagrams_keep_shape (fun salted => Vector.replicate keyLen salted.sum)
    (answering ⟨.v6 1, 443⟩) ⟨0, fun _ => 0⟩ 40000
    [.spawn, .spawn, .act 0 .sample, .act 1 .sample, .act 0 (.bind none),
      .act 1 (.bind (some 40001)), .act 1 (.swap true)] _).2 [7] _ events hc).2 rfl)

end ConstructTransport.Migration
