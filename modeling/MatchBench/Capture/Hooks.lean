import MatchBench.Lib.Wire
import MatchBench.Capture.Pipeline

/-!
# The kernel hooks

`src/ebpf.rs` of the latency capture.  The ingress hook sees every frame that enters the
host, the egress hook every frame that leaves it.  Each finds the TCP payload from the
lengths in the headers and puts a record with a copy of it into the ring buffer.

A packet is the list of its bytes.  A header is read with its fields in host order; the
fields no check looks at are left out.  The two parsers of the source have one body but
for the port they filter on and the end they take for the client, so `ipTcpAt` has the
direction as a parameter.  A copy fails only when the packet is too short for it, and the
ring buffer always has room.  Offsets and lengths are natural numbers: the largest is
below `2 ^ 17`.

`Packet` is what a TCP sender may put on the wire, `Packet.frame` its bytes.  The hook
gives back the whole payload of a packet at its sequence number, unless the payload is a
single byte (`hook_frame`).  So a stream cut into packets is covered by its records
exactly when no packet carries a single byte (`covers_iff`).
-/

namespace MatchBench.Capture

open List Option

namespace Hooks

def ethPIp : UInt16 := 0x0800

def ipprotoTcp : UInt8 := 6

def fixPort : UInt16 := 9898

def httpWsPort : UInt16 := 8080

def captureCap : Nat := 9029

def copyCap : Nat := captureCap

def minCaptureLen : Nat := 2

/-! ### Headers -/

def u8At (b : List UInt8) (i : Nat) : UInt8 := UInt8.ofNat (ofBe ((b.drop i).take 1))

def u16At (b : List UInt8) (i : Nat) : UInt16 := UInt16.ofNat (ofBe ((b.drop i).take 2))

def u32At (b : List UInt8) (i : Nat) : UInt32 := UInt32.ofNat (ofBe ((b.drop i).take 4))

structure EthHdr where
  ethProto : UInt16
  deriving DecidableEq, Repr

structure Ipv4Hdr where
  versionIhl : UInt8
  totLen : UInt16
  protocol : UInt8
  saddr : UInt32
  daddr : UInt32
  deriving DecidableEq, Repr

structure TcpHdr where
  source : UInt16
  dest : UInt16
  seq : UInt32
  doffResFlags : UInt16
  deriving DecidableEq, Repr

/-- `size_of` the headers; the compiler pads `TcpHdr` to the alignment of its words. -/
def ethHdrLen : Nat := 14

def ipv4HdrLen : Nat := 20

def tcpHdrLen : Nat := 16

def EthHdr.load (pkt : List UInt8) (offset : Nat) : Option EthHdr :=
  (window pkt offset ethHdrLen).map (fun b => ⟨u16At b 12⟩)

def Ipv4Hdr.load (pkt : List UInt8) (offset : Nat) : Option Ipv4Hdr :=
  (window pkt offset ipv4HdrLen).map
    (fun b => ⟨u8At b 0, u16At b 2, u8At b 9, u32At b 12, u32At b 16⟩)

def TcpHdr.load (pkt : List UInt8) (offset : Nat) : Option TcpHdr :=
  (window pkt offset tcpHdrLen).map (fun b => ⟨u16At b 0, u16At b 2, u32At b 4, u16At b 12⟩)

/-! ### Finding the payload -/

structure PacketBounds where
  payloadOffset : Nat
  payloadLen : Nat
  serverPort : UInt16
  clientIP : UInt32
  clientPort : UInt16
  tcpSeq : UInt32
  deriving DecidableEq, Repr

/-- The parser from the IP header on.  The server is the destination of a request and
the source of a response. -/
def ipTcpAt (direction : Direction) (pkt : List UInt8) (ipOffset : Nat) : Option PacketBounds :=
  (Ipv4Hdr.load pkt ipOffset).bind fun ip =>
    if ip.versionIhl >>> 4 ≠ 4 ∨ ip.protocol ≠ ipprotoTcp then none
    else
      let ihl := (ip.versionIhl &&& 0x0f).toNat * 4
      let ipTotal := ip.totLen.toNat
      let ipEnd := ipOffset + ipTotal
      let tcpOffset := ipOffset + ihl
      if ihl < ipv4HdrLen then none
      else if ipTotal < ihl then none
      else if pkt.length < ipEnd then none
      else
        (TcpHdr.load pkt tcpOffset).bind fun tcp =>
          let serverPort := if direction = .request then tcp.dest else tcp.source
          let dataOffset := (tcp.doffResFlags >>> 12).toNat * 4
          let payloadOffset := tcpOffset + dataOffset
          if serverPort ≠ fixPort ∧ serverPort ≠ httpWsPort then none
          else if dataOffset < tcpHdrLen then none
          else if ipEnd < payloadOffset then none
          else
            some
              { payloadOffset := payloadOffset
                payloadLen := ipEnd - payloadOffset
                serverPort := serverPort
                clientIP := if direction = .request then ip.saddr else ip.daddr
                clientPort := if direction = .request then tcp.source else tcp.dest
                tcpSeq := tcp.seq }

/-- The parser behind an Ethernet header. -/
def framed (direction : Direction) (pkt : List UInt8) : Option PacketBounds :=
  (EthHdr.load pkt 0).bind fun eth =>
    if eth.ethProto ≠ ethPIp then none else ipTcpAt direction pkt ethHdrLen

def xdpPayloadBounds (pkt : List UInt8) : Option PacketBounds := framed .request pkt

def parseSkbIpTcpAt (pkt : List UInt8) (ipOffset : Nat) : Option PacketBounds :=
  ipTcpAt .response pkt ipOffset

/-- A frame that leaves the host may have no Ethernet header. -/
def tcPayloadBounds (pkt : List UInt8) : Option PacketBounds :=
  (framed .response pkt).or (parseSkbIpTcpAt pkt 0)

/-! ### The records -/

structure CaptureRecord where
  timestampNs : UInt64
  clientIP : UInt32
  tcpSeq : UInt32
  payloadLen : UInt32
  clientPort : UInt16
  serverPort : UInt16
  capturedLen : UInt16
  direction : Direction
  payload : List UInt8
  deriving DecidableEq, Repr

/-- How many bytes to copy, or nothing to skip the packet. -/
def captureLen (bounds : PacketBounds) : Option Nat :=
  if bounds.payloadLen < minCaptureLen then none
  else if copyCap < bounds.payloadLen then some copyCap
  else some bounds.payloadLen

def emitCapture (now : UInt64) (bounds : PacketBounds) (cap : Nat) (direction : Direction)
    (payload : List UInt8) : CaptureRecord :=
  let cap := if captureCap < cap then captureCap else cap
  { timestampNs := now
    clientIP := bounds.clientIP
    tcpSeq := bounds.tcpSeq
    payloadLen := UInt32.ofNat bounds.payloadLen
    clientPort := bounds.clientPort
    serverPort := bounds.serverPort
    capturedLen := UInt16.ofNat cap
    direction := direction
    payload := payload.take cap }

/-- What both hooks do with the bounds: copy the payload and emit the record. -/
def capture (now : UInt64) (direction : Direction) (pkt : List UInt8)
    (bounds : PacketBounds) : Option CaptureRecord :=
  (captureLen bounds).bind fun cap =>
    (window pkt bounds.payloadOffset cap).map (emitCapture now bounds cap direction)

def tryXdpIngress (now : UInt64) (pkt : List UInt8) : Option CaptureRecord :=
  (xdpPayloadBounds pkt).bind (capture now .request pkt)

def tryTcEgress (now : UInt64) (pkt : List UInt8) : Option CaptureRecord :=
  (tcPayloadBounds pkt).bind (capture now .response pkt)

/-- The hook that sees the packets of a direction. -/
def hook : Direction → UInt64 → List UInt8 → Option CaptureRecord
  | .request => tryXdpIngress
  | .response => tryTcEgress

/-! ### Packets on the wire -/

/-- What stands before the IP header: the addresses of an Ethernet header, or nothing. -/
inductive Link
  | ethernet (macs : List UInt8) (length_macs : macs.length = 12)
  | bare
  deriving DecidableEq, Repr

def Link.bytes : Link → List UInt8
  | .ethernet macs _ => macs ++ toBe 2 ethPIp.toNat
  | .bare => []

/-- An IPv4 TCP packet with a payload that fits the capture buffer.  Options come in
words, ten of them at most. -/
structure Packet where
  link : Link
  tos : UInt8
  id : UInt16
  fragOff : UInt16
  ttl : UInt8
  check : UInt16
  saddr : UInt32
  daddr : UInt32
  ipOptions : List UInt8
  source : UInt16
  dest : UInt16
  seq : UInt32
  ackSeq : UInt32
  flags : Fin 4096
  rcvWindow : UInt16
  checksum : UInt16
  urgent : UInt16
  tcpOptions : List UInt8
  payload : List UInt8
  padding : List UInt8
  ipOptions_words : ipOptions.length % 4 = 0 ∧ ipOptions.length ≤ 40
  tcpOptions_words : tcpOptions.length % 4 = 0 ∧ tcpOptions.length ≤ 40
  payload_length : 1 ≤ payload.length ∧ payload.length ≤ captureCap
  deriving DecidableEq, Repr

namespace Packet

variable (p : Packet)

def ihl : Nat := 20 + p.ipOptions.length

def dataOffset : Nat := 20 + p.tcpOptions.length

def ipTotal : Nat := p.ihl + p.dataOffset + p.payload.length

def ipHeader : List UInt8 :=
  [UInt8.ofNat (0x40 + p.ihl / 4), p.tos] ++ toBe 2 p.ipTotal ++ toBe 2 p.id.toNat ++
    toBe 2 p.fragOff.toNat ++ [p.ttl, ipprotoTcp] ++ toBe 2 p.check.toNat ++
    toBe 4 p.saddr.toNat ++ toBe 4 p.daddr.toNat

/-- The part of the TCP header that the hooks load. -/
def tcpHeader : List UInt8 :=
  toBe 2 p.source.toNat ++ toBe 2 p.dest.toNat ++ toBe 4 p.seq.toNat ++
    toBe 4 p.ackSeq.toNat ++ toBe 2 (p.dataOffset / 4 * 4096 + p.flags.val) ++
    toBe 2 p.rcvWindow.toNat

def tcpHeaderRest : List UInt8 := toBe 2 p.checksum.toNat ++ toBe 2 p.urgent.toNat

/-- The bytes from the IP header on. -/
def datagram : List UInt8 :=
  p.ipHeader ++ (p.ipOptions ++ (p.tcpHeader ++ (p.tcpHeaderRest ++
    (p.tcpOptions ++ (p.payload ++ p.padding)))))

def frame : List UInt8 := p.link.bytes ++ p.datagram

/-- The port of the server is a captured one. -/
def OnPort (direction : Direction) : Prop :=
  let port := if direction = .request then p.dest else p.source
  port = fixPort ∨ port = httpWsPort
  deriving Decidable

/-- The hook of the direction knows the link.  Without an Ethernet header only the
egress hook reads the packet, and a source address that begins with the number of the
IP protocol is taken for an Ethernet header. -/
def Linked (direction : Direction) : Prop :=
  p.link = .bare → direction = .response ∧ p.saddr.toNat / 65536 ≠ ethPIp.toNat
  deriving Decidable

@[simp] theorem length_ipHeader : p.ipHeader.length = ipv4HdrLen := by
  simp [ipHeader, ipv4HdrLen]

@[simp] theorem length_tcpHeader : p.tcpHeader.length = tcpHdrLen := by
  simp [tcpHeader, tcpHdrLen]

@[simp] theorem length_tcpHeaderRest : p.tcpHeaderRest.length = 4 := by
  simp [tcpHeaderRest]

theorem length_datagram : p.datagram.length = p.ipTotal + p.padding.length := by
  simp only [datagram, length_append, length_ipHeader, length_tcpHeader,
    length_tcpHeaderRest, ipTotal, ihl, dataOffset, ipv4HdrLen, tcpHdrLen]
  omega

theorem ipTotal_lt : p.ipTotal < 65536 := by
  have h₁ := p.ipOptions_words
  have h₂ := p.tcpOptions_words
  have h₃ := p.payload_length
  simp only [ipTotal, ihl, dataOffset, captureCap] at *
  omega

end Packet

/-! ### Reading a packet back -/

theorem u16_ofBe_toBe (x : UInt16) : UInt16.ofNat (ofBe (toBe 2 x.toNat)) = x := by
  rw [ofBe_toBe_of_lt x.toNat_lt, UInt16.ofNat_toNat]

theorem u32_ofBe_toBe (x : UInt32) : UInt32.ofNat (ofBe (toBe 4 x.toNat)) = x := by
  rw [ofBe_toBe_of_lt x.toNat_lt, UInt32.ofNat_toNat]

theorem u8_ofBe_singleton (x : UInt8) : UInt8.ofNat (ofBe [x]) = x := by
  simp [ofBe]

theorem versionIhl_word {n : Nat} (h₁ : 5 ≤ n) (h₂ : n ≤ 15) :
    UInt8.ofNat (0x40 + n) >>> 4 = 4 ∧ (UInt8.ofNat (0x40 + n) &&& 0x0f).toNat = n := by
  interval_cases n <;> decide

theorem doff_word {n : Nat} (f : Fin 4096) (h : n ≤ 15) :
    (UInt16.ofNat (ofBe (toBe 2 (n * 4096 + f.val))) >>> 12).toNat = n := by
  have hf := f.isLt
  have hlt : n * 4096 + f.val < 65536 := by omega
  have hword : (UInt16.ofNat (n * 4096 + f.val)).toNat = n * 4096 + f.val :=
    UInt16.toNat_ofNat_of_lt hlt
  rw [ofBe_toBe_of_lt hlt, UInt16.toNat_shiftRight, hword, Nat.shiftRight_eq_div_pow]
  simp only [UInt16.toNat_ofNat, Nat.reduceMod, Nat.reducePow]
  omega

namespace Packet

variable (p : Packet) (direction : Direction)

/-- The IP header as the hooks see it. -/
def ipSeen : Ipv4Hdr where
  versionIhl := UInt8.ofNat (0x40 + p.ihl / 4)
  totLen := UInt16.ofNat p.ipTotal
  protocol := ipprotoTcp
  saddr := p.saddr
  daddr := p.daddr

def tcpSeen : TcpHdr where
  source := p.source
  dest := p.dest
  seq := p.seq
  doffResFlags := UInt16.ofNat (ofBe (toBe 2 (p.dataOffset / 4 * 4096 + p.flags.val)))

variable (before : List UInt8)

theorem load_ip : Ipv4Hdr.load (before ++ p.datagram) before.length = some p.ipSeen := by
  rw [Ipv4Hdr.load, datagram, window_of_eq rfl rfl p.length_ipHeader]
  have h₀ : u8At p.ipHeader 0 = UInt8.ofNat (ofBe [UInt8.ofNat (0x40 + p.ihl / 4)]) := rfl
  have h₂ : u16At p.ipHeader 2 = UInt16.ofNat (ofBe (toBe 2 p.ipTotal)) := rfl
  have h₉ : u8At p.ipHeader 9 = UInt8.ofNat (ofBe [ipprotoTcp]) := rfl
  have h₁₂ : u32At p.ipHeader 12 = UInt32.ofNat (ofBe (toBe 4 p.saddr.toNat)) := rfl
  have h₁₆ : u32At p.ipHeader 16 = UInt32.ofNat (ofBe (toBe 4 p.daddr.toNat)) := rfl
  rw [map_some, h₀, h₂, h₉, h₁₂, h₁₆, u8_ofBe_singleton, u8_ofBe_singleton,
    u32_ofBe_toBe, u32_ofBe_toBe, ofBe_toBe_of_lt p.ipTotal_lt, ipSeen]

theorem load_tcp : TcpHdr.load (before ++ p.datagram) (before.length + p.ihl) = some p.tcpSeen := by
  have hpkt : before ++ p.datagram = (before ++ (p.ipHeader ++ p.ipOptions)) ++
      (p.tcpHeader ++ (p.tcpHeaderRest ++ (p.tcpOptions ++ (p.payload ++ p.padding)))) := by
    simp [datagram, append_assoc]
  rw [TcpHdr.load, window_of_eq hpkt (by simp [ihl, ipv4HdrLen]) p.length_tcpHeader]
  have h₀ : u16At p.tcpHeader 0 = UInt16.ofNat (ofBe (toBe 2 p.source.toNat)) := rfl
  have h₂ : u16At p.tcpHeader 2 = UInt16.ofNat (ofBe (toBe 2 p.dest.toNat)) := rfl
  have h₄ : u32At p.tcpHeader 4 = UInt32.ofNat (ofBe (toBe 4 p.seq.toNat)) := rfl
  have h₁₂ : u16At p.tcpHeader 12 = p.tcpSeen.doffResFlags := rfl
  rw [map_some, h₀, h₂, h₄, h₁₂, u16_ofBe_toBe, u16_ofBe_toBe, u32_ofBe_toBe]
  rfl

theorem window_payload :
    window (before ++ p.datagram) (before.length + p.ihl + p.dataOffset) p.payload.length =
      some p.payload := by
  have hpkt : before ++ p.datagram =
      (before ++ (p.ipHeader ++ (p.ipOptions ++ (p.tcpHeader ++ (p.tcpHeaderRest ++
        p.tcpOptions))))) ++ (p.payload ++ p.padding) := by
    simp [datagram, append_assoc]
  refine window_of_eq hpkt ?_ rfl
  simp only [length_append, length_ipHeader, length_tcpHeader, length_tcpHeaderRest, ihl,
    dataOffset, ipv4HdrLen, tcpHdrLen]
  omega

/-- The bounds of the payload, with the IP header at `offset`. -/
def boundsAt (offset : Nat) : PacketBounds where
  payloadOffset := offset + p.ihl + p.dataOffset
  payloadLen := p.payload.length
  serverPort := if direction = .request then p.dest else p.source
  clientIP := if direction = .request then p.saddr else p.daddr
  clientPort := if direction = .request then p.source else p.dest
  tcpSeq := p.seq

theorem ihl_seen :
    p.ipSeen.versionIhl >>> 4 = 4 ∧ (p.ipSeen.versionIhl &&& 0x0f).toNat * 4 = p.ihl := by
  have hw := p.ipOptions_words
  have hihl : p.ihl / 4 * 4 = p.ihl := by simp only [ihl]; omega
  obtain ⟨hv, hl⟩ := versionIhl_word (n := p.ihl / 4) (by simp only [ihl]; omega)
    (by simp only [ihl]; omega)
  exact ⟨hv, by rw [ipSeen, hl, hihl]⟩

theorem dataOffset_seen : (p.tcpSeen.doffResFlags >>> 12).toNat * 4 = p.dataOffset := by
  have hw := p.tcpOptions_words
  rw [tcpSeen, doff_word p.flags (by simp only [dataOffset]; omega)]
  simp only [dataOffset]
  omega

theorem ipTotal_seen : p.ipSeen.totLen.toNat = p.ipTotal :=
  UInt16.toNat_ofNat_of_lt p.ipTotal_lt

theorem ipTcpAt_datagram {direction : Direction} (hport : p.OnPort direction) :
    ipTcpAt direction (before ++ p.datagram) before.length =
      some (p.boundsAt direction before.length) := by
  have hversion : ¬(p.ipSeen.versionIhl >>> 4 ≠ 4 ∨ p.ipSeen.protocol ≠ ipprotoTcp) :=
    not_or.mpr ⟨not_not.mpr p.ihl_seen.1, not_not.mpr rfl⟩
  have hlen : (before ++ p.datagram).length = before.length + (p.ipTotal + p.padding.length) := by
    rw [length_append, length_datagram]
  have hports : ¬((if direction = .request then p.tcpSeen.dest else p.tcpSeen.source) ≠ fixPort ∧
      (if direction = .request then p.tcpSeen.dest else p.tcpSeen.source) ≠ httpWsPort) := by
    rintro ⟨h₁, h₂⟩
    exact hport.elim h₁ h₂
  rw [ipTcpAt, load_ip, bind_some]
  simp only [p.ihl_seen.2, p.ipTotal_seen, hlen]
  rw [if_neg hversion, if_neg (by simp only [ihl, ipv4HdrLen]; omega),
    if_neg (by simp only [ipTotal]; omega), if_neg (by omega), load_tcp, bind_some,
    if_neg hports]
  simp only [p.dataOffset_seen]
  rw [if_neg (by simp only [dataOffset, tcpHdrLen]; omega), if_neg (by simp only [ipTotal]; omega)]
  have hpayload : before.length + p.ipTotal - (before.length + p.ihl + p.dataOffset) =
      p.payload.length := by
    simp only [ipTotal]
    omega
  rw [hpayload]
  rfl

/-! ### The record of a packet -/

/-- The record with the whole payload. -/
def record (now : UInt64) (direction : Direction) : CaptureRecord where
  timestampNs := now
  clientIP := if direction = .request then p.saddr else p.daddr
  tcpSeq := p.seq
  payloadLen := UInt32.ofNat p.payload.length
  clientPort := if direction = .request then p.source else p.dest
  serverPort := if direction = .request then p.dest else p.source
  capturedLen := UInt16.ofNat p.payload.length
  direction := direction
  payload := p.payload

theorem capture_datagram (now : UInt64) :
    capture now direction (before ++ p.datagram) (p.boundsAt direction before.length) =
      if p.payload.length = 1 then none else some (p.record now direction) := by
  have hpos := p.payload_length.1
  have hcap : ¬ captureCap < p.payload.length := Nat.not_lt.mpr p.payload_length.2
  by_cases h1 : p.payload.length = 1
  · rw [if_pos h1, capture, captureLen, if_pos (by simp [boundsAt, minCaptureLen, h1]), bind_none]
  have hlen : captureLen (p.boundsAt direction before.length) = some p.payload.length := by
    rw [captureLen, if_neg (by simp only [boundsAt, minCaptureLen]; omega)]
    exact if_neg hcap
  rw [if_neg h1, capture, hlen, bind_some, boundsAt, window_payload, map_some,
    emitCapture, if_neg hcap, take_length]
  rfl

end Packet

theorem load_eth_ethernet {macs : List UInt8} (hm : macs.length = 12) (rest : List UInt8) :
    EthHdr.load (macs ++ toBe 2 ethPIp.toNat ++ rest) 0 = some ⟨ethPIp⟩ := by
  have hpkt : macs ++ toBe 2 ethPIp.toNat ++ rest =
      [] ++ ((macs ++ toBe 2 ethPIp.toNat) ++ rest) := rfl
  rw [EthHdr.load, window_of_eq hpkt length_nil (by simp [hm, ethHdrLen]), map_some,
    u16At, ← hm, drop_left]
  rfl

theorem load_eth_bare (p : Packet) :
    EthHdr.load p.datagram 0 = some ⟨UInt16.ofNat (p.saddr.toNat / 65536)⟩ := by
  have hpkt : p.datagram = [] ++ (p.ipHeader.take 14 ++ (p.ipHeader.drop 14 ++ (p.ipOptions ++
      (p.tcpHeader ++ (p.tcpHeaderRest ++ (p.tcpOptions ++ (p.payload ++ p.padding))))))) := by
    rw [nil_append, ← append_assoc (p.ipHeader.take 14), take_append_drop, Packet.datagram]
  have hhalf : u16At (p.ipHeader.take 14) 12 = UInt16.ofNat (ofBe
      [UInt8.ofNat (p.saddr.toNat / 256 ^ 3), UInt8.ofNat (p.saddr.toNat / 256 ^ 2)]) := rfl
  have hbytes : [UInt8.ofNat (p.saddr.toNat / 256 ^ 3), UInt8.ofNat (p.saddr.toNat / 256 ^ 2)] =
      toBe 2 (p.saddr.toNat / 65536) := by
    simp only [toBe, Nat.div_div_eq_div_mul]
    rfl
  have hlt : p.saddr.toNat / 65536 < 256 ^ 2 := by
    have := p.saddr.toNat_lt
    omega
  rw [EthHdr.load, window_of_eq hpkt length_nil (by simp [ethHdrLen, ipv4HdrLen]),
    map_some, hhalf, hbytes, ofBe_toBe_of_lt hlt]

theorem framed_bare {p : Packet} (h : p.saddr.toNat / 65536 ≠ ethPIp.toNat) :
    framed .response p.datagram = none := by
  have hlt : p.saddr.toNat / 65536 < 65536 := by
    have := p.saddr.toNat_lt
    omega
  rw [framed, load_eth_bare, bind_some, if_pos]
  intro heq
  apply h
  rw [← heq]
  exact (UInt16.toNat_ofNat_of_lt hlt).symm

/-- **The hook keeps the whole payload of a packet**, unless it is a single byte. -/
theorem hook_frame {direction : Direction} {p : Packet} (now : UInt64)
    (hport : p.OnPort direction) (hlink : p.Linked direction) :
    hook direction now p.frame =
      if p.payload.length = 1 then none else some (p.record now direction) := by
  cases hl : p.link with
  | ethernet macs hm =>
    have hframe : p.frame = macs ++ toBe 2 ethPIp.toNat ++ p.datagram := by
      rw [Packet.frame, hl, Link.bytes]
    have hlen : (macs ++ toBe 2 ethPIp.toNat).length = ethHdrLen := by simp [hm, ethHdrLen]
    have hbounds : framed direction p.frame = some (p.boundsAt direction ethHdrLen) := by
      rw [framed, hframe, load_eth_ethernet hm, bind_some, if_neg (by simp), ← hlen,
        p.ipTcpAt_datagram _ hport]
    have hcapture := p.capture_datagram direction (macs ++ toBe 2 ethPIp.toNat) now
    rw [hlen, ← hframe] at hcapture
    cases direction with
    | request => rw [hook, tryXdpIngress, xdpPayloadBounds, hbounds, bind_some, hcapture]
    | response =>
      rw [hook, tryTcEgress, tcPayloadBounds, hbounds, some_or, bind_some, hcapture]
  | bare =>
    obtain ⟨rfl, haddr⟩ := hlink hl
    have hframe : p.frame = [] ++ p.datagram := by rw [Packet.frame, hl, Link.bytes]
    have hbounds := p.ipTcpAt_datagram [] hport
    have hcapture := p.capture_datagram .response [] now
    rw [nil_append, length_nil] at hbounds hcapture
    rw [hook, tryTcEgress, tcPayloadBounds, hframe, nil_append, framed_bare haddr,
      none_or, parseSkbIpTcpAt, hbounds, bind_some, hcapture]

/-! ### Covering a stream -/

/-- A packet and the time at which it passes the hook. -/
structure Arrival where
  now : UInt64
  packet : Packet
  deriving DecidableEq, Repr

/-- The packets carry a stream from its place `off` on, on a captured port. -/
def Divided (direction : Direction) (base : UInt32) : Nat → List Arrival → Prop
  | _, [] => True
  | off, a :: rest =>
      (a.packet.seq = base + UInt32.ofNat off ∧ a.packet.OnPort direction ∧
        a.packet.Linked direction) ∧ Divided direction base (off + a.packet.payload.length) rest

instance decidableDivided (direction : Direction) (base : UInt32) :
    ∀ (off : Nat) (arrivals : List Arrival), Decidable (Divided direction base off arrivals)
  | _, [] => .isTrue trivial
  | off, a :: rest =>
      have := decidableDivided direction base (off + a.packet.payload.length) rest
      inferInstanceAs (Decidable (_ ∧ _))

/-- The bytes of the stream. -/
def carried (arrivals : List Arrival) : List UInt8 := arrivals.flatMap (fun a => a.packet.payload)

/-- The records in the ring buffer. -/
def emitted (direction : Direction) (arrivals : List Arrival) : List CaptureRecord :=
  arrivals.filterMap (fun a => hook direction a.now a.packet.frame)

/-- The payload of a record is the slice of the stream at its sequence number, the place
`off`. -/
def SliceAt (base : UInt32) (stream : List UInt8) (off : Nat) (r : CaptureRecord) : Prop :=
  r.tcpSeq = base + UInt32.ofNat off ∧ window stream off r.payload.length = some r.payload

/-- The records are slices of the stream, and together the whole stream. -/
def Covers (base : UInt32) (stream : List UInt8) (records : List CaptureRecord) : Prop :=
  ∃ places : List Nat, Forall₂ (SliceAt base stream) places records ∧
    ∀ i < stream.length, ∃ x ∈ places.zip records, x.1 ≤ i ∧ i < x.1 + x.2.payload.length

section

variable {direction : Direction} {base : UInt32}

theorem emitted_cons {off : Nat} {a : Arrival} {rest : List Arrival}
    (h : Divided direction base off (a :: rest)) :
    emitted direction (a :: rest) =
      (if a.packet.payload.length = 1 then [] else [a.packet.record a.now direction]) ++
        emitted direction rest := by
  have hhook := hook_frame a.now h.1.2.1 h.1.2.2
  rw [emitted, filterMap_cons, hhook]
  split <;> simp_all [emitted]

theorem emitted_length : ∀ {off : Nat} {arrivals : List Arrival},
    Divided direction base off arrivals →
    ((emitted direction arrivals).map (fun r => r.payload.length)).sum +
      arrivals.countP (fun a => a.packet.payload.length = 1) = (carried arrivals).length
  | _, [], _ => rfl
  | off, a :: rest, h => by
    have ih := emitted_length h.2
    rw [emitted_cons h, carried, flatMap_cons, length_append, ← carried, map_append,
      sum_append, countP_cons]
    by_cases h1 : a.packet.payload.length = 1
    · simp only [h1, if_true, map_nil, sum_nil, decide_true]
      omega
    · simp only [h1, if_false, map_cons, map_nil, sum_cons, sum_nil, decide_false, Packet.record]
      simp
      omega

theorem covers_of_divided : ∀ {arrivals : List Arrival} (before : List UInt8),
    Divided direction base before.length arrivals →
    (∀ a ∈ arrivals, a.packet.payload.length ≠ 1) →
    ∃ places, Forall₂ (SliceAt base (before ++ carried arrivals)) places
        (emitted direction arrivals) ∧
      ∀ i, before.length ≤ i → i < (before ++ carried arrivals).length →
        ∃ x ∈ places.zip (emitted direction arrivals), x.1 ≤ i ∧ i < x.1 + x.2.payload.length
  | [], before, _, _ => by
    refine ⟨[], .nil, fun i hge hlt => ?_⟩
    simp only [carried, flatMap_nil, append_nil] at hlt
    omega
  | a :: rest, before, h, hone => by
    have hlen : before.length + a.packet.payload.length = (before ++ a.packet.payload).length :=
      length_append.symm
    have hstream : before ++ carried (a :: rest) = before ++ a.packet.payload ++ carried rest := by
      rw [carried, flatMap_cons, append_assoc, carried]
    obtain ⟨places, hslices, hall⟩ := covers_of_divided (before ++ a.packet.payload)
      (hlen ▸ h.2) (fun b hb => hone b (.tail a hb))
    rw [emitted_cons h, if_neg (hone a (.head _)), hstream]
    refine ⟨before.length :: places, .cons ⟨h.1.1, ?_⟩ hslices, fun i hge hlt => ?_⟩
    · rw [append_assoc]
      exact window_append before a.packet.payload (carried rest)
    by_cases hi : i < before.length + a.packet.payload.length
    · exact ⟨(before.length, a.packet.record a.now direction), .head _, hge, hi⟩
    · obtain ⟨x, hx, hxi⟩ := hall i (by omega) hlt
      exact ⟨x, mem_cons_of_mem _ hx, hxi⟩

theorem Covers.length_le {stream : List UInt8} {records : List CaptureRecord}
    (h : Covers base stream records) :
    stream.length ≤ (records.map (fun r => r.payload.length)).sum := by
  obtain ⟨places, hslices, hall⟩ := h
  have hcard := card_le_sum_of_covered
    ((places.zip records).map (fun x => (x.1, x.2.payload.length))) (Finset.range stream.length)
    (by
      intro i hi
      obtain ⟨x, hx, hxi⟩ := hall i (Finset.mem_range.mp hi)
      exact ⟨_, List.mem_map_of_mem hx, hxi⟩)
  have hsnd : ((places.zip records).map (fun x => (x.1, x.2.payload.length))).map Prod.snd =
      records.map (fun r => r.payload.length) := by
    have hzip := congrArg (List.map (fun r : CaptureRecord => r.payload.length))
      (map_snd_zip hslices.length_eq.ge)
    rw [List.map_map] at hzip ⊢
    exact hzip
  rwa [Finset.card_range, hsnd] at hcard

/-- **The records cover the stream exactly when no packet carries a single byte.** -/
theorem covers_iff {arrivals : List Arrival} (h : Divided direction base 0 arrivals) :
    Covers base (carried arrivals) (emitted direction arrivals) ↔
      ∀ a ∈ arrivals, a.packet.payload.length ≠ 1 := by
  constructor
  · intro hcovers
    have hlen := emitted_length h
    have hzero : arrivals.countP (fun a => a.packet.payload.length = 1) = 0 := by
      have := hcovers.length_le
      omega
    intro a ha
    simpa using countP_eq_zero.mp hzero a ha
  · intro hone
    obtain ⟨places, hslices, hall⟩ := covers_of_divided [] h hone
    exact ⟨places, hslices, fun i hi => hall i (Nat.zero_le i) hi⟩

/-- A packet to the FIX port with one word of IP options, two of TCP options and two
bytes of padding. -/
def toFixPort (seq : UInt32) (payload : List UInt8)
    (h : 1 ≤ payload.length ∧ payload.length ≤ captureCap) : Packet where
  link := .ethernet [2, 0, 0, 0, 0, 1, 2, 0, 0, 0, 0, 2] rfl
  tos := 0
  id := 1
  fragOff := 0x4000
  ttl := 64
  check := 0
  saddr := 0x0A000002
  daddr := 0x0A000001
  ipOptions := [1, 1, 1, 0]
  source := 40000
  dest := fixPort
  seq := seq
  ackSeq := 1
  flags := 0x018
  rcvWindow := 512
  checksum := 0
  urgent := 0
  tcpOptions := [1, 1, 1, 1, 1, 1, 1, 0]
  payload := payload
  padding := [0, 0]
  ipOptions_words := by decide
  tcpOptions_words := by decide
  payload_length := h

/-- The bytes `8=FIX`, the last one alone when `cut` is four. -/
def cutAt (cut : Nat) (h : 1 ≤ cut ∧ cut ≤ 4) : List Arrival :=
  [⟨1, toFixPort 0xFFFFFFFE ([56, 61, 70, 73, 88].take cut)
      (by simp only [length_take, length_cons, length_nil, captureCap]; omega)⟩,
    ⟨2, toFixPort (0xFFFFFFFE + UInt32.ofNat cut) ([56, 61, 70, 73, 88].drop cut)
      (by simp only [length_drop, length_cons, length_nil, captureCap]; omega)⟩]

theorem covers_cutAt_three :
    Divided .request 0xFFFFFFFE 0 (cutAt 3 (by decide)) ∧
      Covers 0xFFFFFFFE [56, 61, 70, 73, 88] (emitted .request (cutAt 3 (by decide))) := by
  have h : Divided .request 0xFFFFFFFE 0 (cutAt 3 (by decide)) := by decide
  exact ⟨h, (covers_iff h).mpr (by decide)⟩

/-- The byte that travels alone is in no record. -/
theorem not_covers_cutAt_four :
    Divided .request 0xFFFFFFFE 0 (cutAt 4 (by decide)) ∧
      carried (cutAt 4 (by decide)) = [56, 61, 70, 73, 88] ∧
      (emitted .request (cutAt 4 (by decide))).map (fun r => r.payload) = [[56, 61, 70, 73]] ∧
      ¬ Covers 0xFFFFFFFE [56, 61, 70, 73, 88] (emitted .request (cutAt 4 (by decide))) := by
  refine ⟨by decide, by decide, by decide, fun h => ?_⟩
  have hlen := h.length_le
  revert hlen
  decide

end

end Hooks

end MatchBench.Capture
