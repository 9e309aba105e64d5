import ConstructTransport.Datagram.Counters
import ConstructTransport.Datagram.Keyed
import ConstructTransport.Migration.Wire

/-! How large datagrams become on the wire. QUIC finds the size of its datagrams by
itself, up to a bound of the transport configuration, and a socket that obfuscates
puts a salt before each. Every endpoint the repository opens is configured with the
greatest bound under which none of its datagrams outgrows the path, on the socket it
starts on and on all that it migrates to. -/

namespace ConstructTransport.Tls

open Checked Datagram Dial Interleaving Migration Runs

/-! ### The configurations -/

def fromSecs (secs : ℕ) : Duration := secs * 1000000000

def quicKeepAliveSecs : ℕ := 15

def quicMaxIdleSecs : ℕ := 30

def obfOverhead : UInt16 := UInt16.ofNat saltLen

def mtudUpperBound : UInt16 := 1452

/-- `quinn::TransportConfig`, as far as the repository sets it. -/
structure TransportConfig where
  keepAliveInterval : Option Duration
  /-- In milliseconds. -/
  maxIdleTimeout : Option ℕ
  /-- Of the `MtuDiscoveryConfig`. -/
  upperBound : UInt16
  deriving DecidableEq, Repr

inductive VarIntBoundsExceeded
  | mk
  deriving DecidableEq, Repr

/-- `quinn`, as far as a configuration uses it. -/
structure Quinn where
  /-- `MtuDiscoveryConfig::default()` -/
  defaultUpperBound : UInt16
  /-- `MtuDiscoveryConfig::upper_bound` -/
  upperBound : UInt16 → UInt16
  /-- `IdleTimeout::try_from`, in milliseconds. -/
  idleTimeout : Duration → Except VarIntBoundsExceeded ℕ
  /-- `initial_mtu`, from which the discovery starts. -/
  initialMtu : ℕ

/-- What is documented of it: the two sizes, that a bound is taken as far as a UDP
payload goes, and that a timeout is to fit a variable-length integer. -/
structure Quinn.Documented (quinn : Quinn) : Prop where
  defaultUpperBound : quinn.defaultUpperBound = 1452
  upperBound : ∀ value ≤ 65527, quinn.upperBound value = value
  idleTimeout : ∀ d, asMillis d < 2 ^ 62 → quinn.idleTimeout d = .ok (asMillis d)
  initialMtu : quinn.initialMtu = 1200

variable (quinn : Quinn)

def buildTransportConfig (keepAlive maxIdle : Duration) :
    Except VarIntBoundsExceeded TransportConfig := do
  let idle ← quinn.idleTimeout maxIdle
  return ⟨some keepAlive, some idle, quinn.defaultUpperBound⟩

def transportConfig : Except VarIntBoundsExceeded TransportConfig :=
  buildTransportConfig quinn (fromSecs quicKeepAliveSecs) (fromSecs quicMaxIdleSecs)

def obfTransportConfig : Except VarIntBoundsExceeded TransportConfig := do
  let idle ← quinn.idleTimeout (fromSecs quicMaxIdleSecs)
  return ⟨some (fromSecs quicKeepAliveSecs), some idle,
    quinn.upperBound (mtudUpperBound - obfOverhead)⟩

/-! The configurations of the two ends, by the transport they have. -/

def clientConfig : Except VarIntBoundsExceeded TransportConfig := transportConfig quinn

def clientConfigObf : Except VarIntBoundsExceeded TransportConfig := obfTransportConfig quinn

def serverConfig : Except VarIntBoundsExceeded TransportConfig := transportConfig quinn

def serverConfigObf : Except VarIntBoundsExceeded TransportConfig := obfTransportConfig quinn

/-- `client_config` of `udpcheck`, which has numbers of its own. -/
def Udpcheck.clientConfig (obf : Bool) : Except VarIntBoundsExceeded TransportConfig := do
  let idle ← quinn.idleTimeout (fromSecs 30)
  return ⟨some (fromSecs 5), some idle,
    if obf then quinn.upperBound (1452 - UInt16.ofNat saltLen) else quinn.defaultUpperBound⟩

/-- The places where the repository opens an endpoint. -/
inductive Site
  | connect
  | connectObfuscated (psk : List UInt8)
  | serve
  | serveObfuscated (psk : List UInt8)
  | echo
  | probe
  | smoke
  | udpcheck (psk : Option (List UInt8))

/-- What the socket of the endpoint obfuscates with. -/
def Site.obf : Site → Option Salamander
  | connectObfuscated psk | serveObfuscated psk => some ⟨psk⟩
  | udpcheck psk => psk.map Salamander.mk
  | connect | serve | echo | probe | smoke => none

def Site.config : Site → Except VarIntBoundsExceeded TransportConfig
  | connect | probe | smoke => clientConfig quinn
  | connectObfuscated _ => clientConfigObf quinn
  | serve | echo => serverConfig quinn
  | serveObfuscated _ => serverConfigObf quinn
  | udpcheck psk => Udpcheck.clientConfig quinn psk.isSome

/-! ### What a connection sends -/

/-- `max_transmit_segments`, where the kernel takes `gso` segments at once. -/
def maxTransmitSegments (obf : Option Salamander) (gso : ℕ) : ℕ :=
  match obf with
  | some _ => 1
  | none => gso

/-- A transmit that a connection may ask of its socket: no datagram is larger than
what the discovery may find, and there are no more than the socket takes. -/
structure Asks (tc : TransportConfig) (segments : ℕ) (t : Transmit) : Prop where
  small : ∀ dg ∈ Keyed.segments t, dg.length ≤ max quinn.initialMtu tc.upperBound.toNat
  few : (Keyed.segments t).length ≤ segments
  size : t.segmentSize ≠ some 0

variable (blake2b256 : Blake2b256)

/-- Whatever the connection asks, and whatever the salts, the path takes every datagram. -/
def Fits (gso : ℕ) (obf : Option Salamander) (tc : TransportConfig) : Prop :=
  ∀ salt t, Asks quinn tc (maxTransmitSegments obf gso) t → ∃ wire,
    Keyed.send blake2b256 obf salt t = .ok wire ∧
    ∀ dg ∈ Keyed.segments wire, dg.length ≤ mtudUpperBound.toNat

/-- No configuration with a greater bound would do, and any with a smaller one would. -/
def Greatest (gso : ℕ) (obf : Option Salamander) (tc : TransportConfig) : Prop :=
  ∀ tc', Fits quinn blake2b256 gso obf tc' ↔ tc'.upperBound ≤ tc.upperBound

/-! ### One endpoint -/

variable {quinn}

theorem transportConfig_eq (hq : quinn.Documented) :
    transportConfig quinn = .ok ⟨some (fromSecs 15), some 30000, 1452⟩ := by
  rw [transportConfig, buildTransportConfig, hq.idleTimeout _ (by decide), hq.defaultUpperBound]
  rfl

theorem obfTransportConfig_eq (hq : quinn.Documented) :
    obfTransportConfig quinn = .ok ⟨some (fromSecs 15), some 30000, 1444⟩ := by
  rw [obfTransportConfig, hq.idleTimeout _ (by decide), hq.upperBound _ (by decide)]
  rfl

theorem udpcheck_clientConfig_eq (hq : quinn.Documented) (obf : Bool) :
    Udpcheck.clientConfig quinn obf =
      .ok ⟨some (fromSecs 5), some 30000, if obf then 1444 else 1452⟩ := by
  rw [Udpcheck.clientConfig, hq.idleTimeout _ (by decide), hq.upperBound _ (by decide),
    hq.defaultUpperBound]
  rfl

theorem site_config (hq : quinn.Documented) (site : Site) : ∃ tc, site.config quinn = .ok tc ∧
    tc.upperBound = if site.obf.isSome then 1444 else 1452 := by
  cases site with
  | udpcheck psk =>
    refine ⟨_, udpcheck_clientConfig_eq hq psk.isSome, ?_⟩
    rw [Site.obf, Option.isSome_map]
  | connectObfuscated psk | serveObfuscated psk => exact ⟨_, obfTransportConfig_eq hq, rfl⟩
  | connect | serve | echo | probe | smoke => exact ⟨_, transportConfig_eq hq, rfl⟩

theorem contents_length_le {t : Transmit} {n : ℕ} (hsize : t.segmentSize ≠ some 0)
    (hone : (Keyed.segments t).length ≤ 1) (hsmall : ∀ dg ∈ Keyed.segments t, dg.length ≤ n) :
    t.contents.length ≤ n := by
  unfold Keyed.segments at hone hsmall
  cases hs : t.segmentSize with
  | none =>
    rw [hs] at hsmall
    exact hsmall t.contents (List.mem_singleton_self _)
  | some size =>
    simp only [hs] at hone hsmall
    have hpos : 0 < size := Nat.pos_of_ne_zero fun h => hsize (by rw [hs, h])
    cases hc : t.contents with
    | nil => exact Nat.zero_le n
    | cons b rest =>
      rw [hc, length_cut hpos] at hone
      have hle : (b :: rest).length ≤ size := by
        have := Nat.lt_mul_of_div_lt (Nat.lt_succ_of_le hone) hpos
        omega
      rw [hc, Coalesced.cut_whole (List.cons_ne_nil b rest) hle] at hsmall
      exact hsmall _ (List.mem_singleton_self _)

/-- What the salt leaves of the path is for the datagram. -/
theorem fits_iff {gso : ℕ} (hg : 0 < gso) (obf : Option Salamander) (tc : TransportConfig) :
    Fits quinn blake2b256 gso obf tc ↔
      max quinn.initialMtu tc.upperBound.toNat + (if obf.isSome then saltLen else 0) ≤ 1452 := by
  constructor
  · intro h
    -- the largest datagram that may be asked for
    have hlarge : Asks quinn tc (maxTransmitSegments obf gso)
        ⟨⟨.v4 0, 0⟩, none, List.replicate (max quinn.initialMtu tc.upperBound.toNat) 0, none,
          none⟩ := by
      refine ⟨fun dg hdg => ?_, ?_, nofun⟩
      · rw [List.mem_singleton.mp hdg, List.length_replicate]
      · cases obf with
        | none => exact hg
        | some obf => exact le_rfl
    obtain ⟨wire, hw, hfit⟩ := h (Vector.replicate saltLen 0) _ hlarge
    cases obf with
    | none =>
      cases hw
      have := hfit _ (List.mem_singleton_self _)
      rwa [List.length_replicate] at this
    | some obf =>
      rw [Keyed.send, ObfuscatedUdpSocket.trySend_eq] at hw
      cases hw
      have := hfit _ (List.mem_singleton_self _)
      rw [obf.datagram_length, List.length_replicate] at this
      rw [Nat.add_comm]
      exact this
  · intro h salt t ht
    cases obf with
    | none => exact ⟨t, rfl, fun dg hdg => (ht.small dg hdg).trans h⟩
    | some obf =>
      refine ⟨_, ObfuscatedUdpSocket.trySend_eq blake2b256 obf salt t, fun dg hdg => ?_⟩
      have hlen := contents_length_le ht.size ht.few ht.small
      rw [List.mem_singleton.mp hdg, obf.datagram_length, Nat.add_comm]
      exact (Nat.add_le_add_right hlen saltLen).trans h

theorem site_greatest (hq : quinn.Documented) {gso : ℕ} (hg : 0 < gso) (site : Site) :
    ∃ tc, site.config quinn = .ok tc ∧ Greatest quinn blake2b256 gso site.obf tc := by
  obtain ⟨tc, hc, hbound⟩ := site_config hq site
  refine ⟨tc, hc, fun tc' => ?_⟩
  rw [fits_iff blake2b256 hg, hq.initialMtu, hbound]
  unfold saltLen
  cases site.obf with
  | none =>
    show max 1200 tc'.upperBound.toNat + 0 ≤ 1452 ↔ tc'.upperBound.toNat ≤ 1452
    omega
  | some obf =>
    show max 1200 tc'.upperBound.toNat + 8 ≤ 1452 ↔ tc'.upperBound.toNat ≤ 1444
    omega

/-! ### All endpoints -/

theorem connected_obf {obf : Option Salamander} {c : QuicClient} {first : Socket}
    {labels : List (Label Event Migration.Act)} {s : Config Endpoint Phase}
    (hr : c.recipe = ⟨bindAddrFor c.addr, obf⟩) (hobf : first.obf = obf)
    (hip : first.addr.ip = (bindAddrFor c.addr).ip)
    (h : run client.step (connected c first) labels = some s) :
    ∀ socket ∈ s.shared.sockets, socket.obf = obf := by
  have hstart : (connected c first).shared.Uniform ⟨bindAddrFor c.addr, obf⟩ := by
    refine ⟨hr, fun socket hmem => ?_⟩
    rw [List.mem_singleton.mp hmem]
    exact ⟨hobf, hip⟩
  exact fun socket hmem => ((run_uniform hstart h).built socket hmem).1

/-- Every endpoint has the greatest bound with which its datagrams fit the path, and
for one that migrates it is so on each of its sockets. -/
theorem bounds_greatest (hq : quinn.Documented) {ε : Type} (net : Network ε) (pace : Pace)
    (port : UInt16) (labels : List (Label Event Migration.Act)) (s : Config Endpoint Phase)
    {gso : ℕ} (hg : 0 < gso) :
    (∀ site : Site, ∃ tc, site.config quinn = .ok tc ∧ Greatest quinn blake2b256 gso site.obf tc) ∧
    (∀ c events, connect net pace = .ok (.ok c, events) →
      run client.step (connected c (openPlain c.addr port).1) labels = some s →
      ∃ tc, Site.connect.config quinn = .ok tc ∧
        ∀ socket ∈ s.shared.sockets, Greatest quinn blake2b256 gso socket.obf tc) ∧
    ∀ psk c events, connectObfuscated psk net pace = .ok (.ok c, events) →
      run client.step (connected c (openObfuscated ⟨psk⟩ c.addr port).1) labels = some s →
      ∃ tc, (Site.connectObfuscated psk).config quinn = .ok tc ∧
        ∀ socket ∈ s.shared.sockets, Greatest quinn blake2b256 gso socket.obf tc := by
  refine ⟨site_greatest blake2b256 hq hg, fun c events hc h => ?_, fun psk c events hc h => ?_⟩
  · obtain ⟨tc, htc, hgreatest⟩ := site_greatest blake2b256 hq hg .connect
    refine ⟨tc, htc, fun socket hmem => ?_⟩
    rw [connected_obf (connectWith_recipe hc) rfl rfl h socket hmem]
    exact hgreatest
  · obtain ⟨tc, htc, hgreatest⟩ := site_greatest blake2b256 hq hg (.connectObfuscated psk)
    refine ⟨tc, htc, fun socket hmem => ?_⟩
    rw [connected_obf (connectWith_recipe hc) rfl rfl h socket hmem]
    exact hgreatest

def quinnProto : Quinn where
  defaultUpperBound := 1452
  upperBound value := min value 65527
  idleTimeout d := if asMillis d < 2 ^ 62 then .ok (asMillis d) else .error .mk
  initialMtu := 1200

theorem quinnProto_documented : quinnProto.Documented where
  defaultUpperBound := rfl
  upperBound _ hle := if_pos hle
  idleTimeout _ hlt := if_pos hlt
  initialMtu := rfl

/-- One byte more and a datagram of an obfuscated client is too large for the path, on
the socket it migrated to as on its first. -/
theorem bounds_greatest_migrated : ∃ s, ∃ socket ∈ s.shared.sockets,
    run client.step (connected ⟨⟨.v6 1, 443⟩, ⟨⟨.v6 0, 0⟩, some ⟨[7]⟩⟩⟩
      (openObfuscated ⟨[7]⟩ ⟨.v6 1, 443⟩ 40000).1)
      [.spawn, .act 0 .sample, .act 0 (.bind (some 40001)), .act 0 (.swap true)] = some s ∧
    socket.addr.port = 40001 ∧
    Fits quinnProto (fun salted => Vector.replicate keyLen salted.sum) 64 socket.obf
      ⟨none, none, 1444⟩ ∧
    ¬Fits quinnProto (fun salted => Vector.replicate keyLen salted.sum) 64 socket.obf
      ⟨none, none, 1445⟩ := by
  obtain ⟨events, hc⟩ : ∃ events, connectObfuscated [7] (answering ⟨.v6 1, 443⟩) ⟨0, fun _ => 0⟩ =
      .ok (.ok ⟨⟨.v6 1, 443⟩, ⟨⟨.v6 0, 0⟩, some ⟨[7]⟩⟩⟩, events) := ⟨_, rfl⟩
  obtain ⟨tc, htc, hall⟩ := (bounds_greatest (fun salted => Vector.replicate keyLen salted.sum)
    quinnProto_documented (answering ⟨.v6 1, 443⟩) ⟨0, fun _ => 0⟩ 40000
    [.spawn, .act 0 .sample, .act 0 (.bind (some 40001)), .act 0 (.swap true)] _
    (by decide : 0 < 64)).2.2 [7] _ events hc rfl
  cases htc
  have hsocket := hall ⟨⟨.v6 0, 40001⟩, some ⟨[7]⟩, 0, 0⟩ (by decide)
  refine ⟨_, _, ?_, rfl, rfl, (hsocket _).mpr (by decide), fun h => ?_⟩
  · exact List.mem_cons_of_mem _ List.mem_cons_self
  · exact absurd ((hsocket _).mp h) (by decide)

end ConstructTransport.Tls
