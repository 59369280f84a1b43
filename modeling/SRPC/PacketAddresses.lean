import SRPC.RequestDispatch

/-!
# Addresses of replies

A reply in a new buffer has the addresses of its connection.  A reply in the
buffer of its request has those of the request, exchanged.
-/

namespace SRPC.Dpdk

open LittleEndian Marshalling TransportMarshal ByteSource

/-- Addresses and ports as they stand in the headers. -/
def addressBytes (srcIp dstIp : BitVec 32) (srcPort dstPort : BitVec 16) : List Byte :=
  toBytes 4 srcIp ++ (toBytes 4 dstIp ++ (toBytes 2 (swap16 srcPort) ++ toBytes 2 (swap16 dstPort)))

theorem Mbuf.addresses_eq (mbuf : Mbuf) : mbuf.addresses = mbuf.data.load (ipHdrOffset + 12) 4 ++
      (mbuf.data.load (ipHdrOffset + 16) 4 ++
        (mbuf.data.load udpHdrOffset 2 ++ mbuf.data.load (udpHdrOffset + 2) 2)) := by
  rw [Mbuf.addresses, show 12 = 4 + (4 + (2 + 2)) from rfl, ByteArea.load_add,
    ByteArea.load_add, ByteArea.load_add]
  rfl

theorem Mbuf.addresses_eq_addressBytes_iff {mbuf : Mbuf}
    {srcIp dstIp : BitVec 32} {srcPort dstPort : BitVec 16} :
    mbuf.addresses = addressBytes srcIp dstIp srcPort dstPort ↔
      mbuf.data.load (ipHdrOffset + 12) 4 = toBytes 4 srcIp ∧
      mbuf.data.load (ipHdrOffset + 16) 4 = toBytes 4 dstIp ∧
      mbuf.data.load udpHdrOffset 2 = toBytes 2 (swap16 srcPort) ∧
      mbuf.data.load (udpHdrOffset + 2) 2 = toBytes 2 (swap16 dstPort) := by
  rw [addresses_eq, addressBytes]
  constructor
  · intro same
    obtain ⟨srcIpEq, same⟩ := List.append_inj same (by simp [length_toBytes])
    obtain ⟨dstIpEq, same⟩ := List.append_inj same (by simp [length_toBytes])
    obtain ⟨srcPortEq, dstPortEq⟩ := List.append_inj same (by simp [length_toBytes])
    exact ⟨srcIpEq, dstIpEq, srcPortEq, dstPortEq⟩
  · rintro ⟨srcIpEq, dstIpEq, srcPortEq, dstPortEq⟩
    rw [srcIpEq, dstIpEq, srcPortEq, dstPortEq]

theorem addresses_getNewPkt (conn : TransportConnection) (pool : Pool) (data : ByteArea) :
    ((conn.getNewPkt pool data).2.mbuf pool.next).addresses =
      addressBytes conn.srcAddr.ip conn.outAddr.ip conn.udpPort conn.outAddr.port := by
  have field {index offset : Nat} {bytes : List Byte}
      (found : conn.headerFields[index]? = some (offset, bytes))
      (outside : ∀ field ∈ conn.headerFields.drop (index + 1), offset + bytes.length ≤ field.1 ∨
          field.1 + field.2.length ≤ offset) :
      ((conn.getNewPkt pool data).2.mbuf pool.next).data.load offset bytes.length = bytes := by
    show ((conn.makePktHeader _ pool.next).mbuf pool.next).data.load _ _ = _
    rw [TransportConnection.makePktHeader, data_foldl_store]
    exact load_foldl_store_field found outside _
  have srcIp := field (show conn.headerFields[9]? = some
    (ipHdrOffset + 12, toBytes 4 conn.srcAddr.ip) from rfl)
  have dstIp := field (show conn.headerFields[10]? = some
    (ipHdrOffset + 16, toBytes 4 conn.outAddr.ip) from rfl)
  have srcPort := field (show conn.headerFields[12]? = some
    (udpHdrOffset, toBytes 2 (swap16 conn.udpPort)) from rfl)
  have dstPort := field (show conn.headerFields[13]? = some
    (udpHdrOffset + 2, toBytes 2 (swap16 conn.outAddr.port)) from rfl)
  simp only [length_toBytes] at srcIp dstIp srcPort dstPort
  refine Mbuf.addresses_eq_addressBytes_iff.mpr ⟨srcIp ?_, dstIp ?_, srcPort ?_, dstPort ?_⟩ <;>
  simp [TransportConnection.headerFields, genEthHeader, genIpv4Header,
    genUdpHeader, ipHdrOffset, udpHdrOffset, length_toBytes]

section Swap

variable (pool : Pool) (pkt : Nat)

theorem data_swapUdpAddresses :
    ((swapUdpAddresses pool pkt).mbuf pkt).data = (swappedFields (pool.mbuf pkt).data).foldl
        (fun area field => ByteArea.store area field.1 field.2) (pool.mbuf pkt).data :=
  data_foldl_store _ pool pkt

theorem load_swapUdpAddresses {from_ : Nat} (behind : dataOffset ≤ from_) (n : Nat) :
    ((swapUdpAddresses pool pkt).mbuf pkt).data.load from_ n =
      (pool.mbuf pkt).data.load from_ n := by
  rw [data_swapUdpAddresses]
  apply load_foldl_store
  rw [dataOffset] at behind
  simp only [swappedFields, List.forall_mem_cons, ByteArea.length_load,
    ipHdrOffset, udpHdrOffset, List.not_mem_nil, false_imp_iff, implies_true, and_true]
  omega

theorem dataLen_swapUdpAddresses :
    ((swapUdpAddresses pool pkt).mbuf pkt).dataLen = (pool.mbuf pkt).dataLen := by
  simp [swapUdpAddresses, swappedFields, Assembling.dataLen_store]

/-- All addresses of a packet are exchanged in another one. -/
structure Mbuf.Exchanges (reply request : Mbuf) : Prop where
  srcMac : reply.data.load 6 6 = request.data.load 0 6
  dstMac : reply.data.load 0 6 = request.data.load 6 6
  srcIp : reply.data.load (ipHdrOffset + 12) 4 = request.data.load (ipHdrOffset + 16) 4
  dstIp : reply.data.load (ipHdrOffset + 16) 4 = request.data.load (ipHdrOffset + 12) 4
  srcPort : reply.data.load udpHdrOffset 2 = request.data.load (udpHdrOffset + 2) 2
  dstPort : reply.data.load (udpHdrOffset + 2) 2 = request.data.load udpHdrOffset 2

theorem exchanges_swapUdpAddresses :
    ((swapUdpAddresses pool pkt).mbuf pkt).Exchanges (pool.mbuf pkt) := by
  have field (index : Nat) {offset : Nat} {bytes : List Byte}
      (found : (swappedFields (pool.mbuf pkt).data)[index]? = some (offset, bytes))
      (outside : ∀ field ∈ (swappedFields (pool.mbuf pkt).data).drop (index + 1),
        offset + bytes.length ≤ field.1 ∨
          field.1 + field.2.length ≤ offset) :
      ((swapUdpAddresses pool pkt).mbuf pkt).data.load offset bytes.length = bytes := by
    rw [data_swapUdpAddresses]
    exact load_foldl_store_field found outside _
  have newSrcMac := field 0 rfl
  have newDstMac := field 1 rfl
  have newSrcIp := field 2 rfl
  have newDstIp := field 3 rfl
  have newSrcPort := field 4 rfl
  have newDstPort := field 5 rfl
  simp only [ByteArea.length_load] at newSrcMac newDstMac newSrcIp newDstIp
  simp only [ByteArea.length_load] at newSrcPort newDstPort
  refine ⟨newSrcMac ?_, newDstMac ?_, newSrcIp ?_, newDstIp ?_, newSrcPort ?_, newDstPort ?_⟩ <;>
  simp [swappedFields, ipHdrOffset, udpHdrOffset, ByteArea.length_load]

variable {pool pkt}

theorem Mbuf.Carries.swapUdpAddresses {pktType : Byte} {body : List Byte}
    (carries : (pool.mbuf pkt).Carries pktType body) :
    ((swapUdpAddresses pool pkt).mbuf pkt).Carries pktType body := by
  have behind : dataOffset ≤ bodyOffset := Nat.le_add_right _ _
  refine ⟨?_, ?_, ?_, ?_⟩
  · have first := load_swapUdpAddresses pool pkt (Nat.le_refl _) 1
    rw [← carries.type]
    simpa [ByteArea.load] using first
  · rw [load_swapUdpAddresses _ _ (Nat.le_succ _), carries.size]
  · rw [load_swapUdpAddresses _ _ behind, carries.content]
  · rw [dataLen_swapUdpAddresses, carries.length]

end Swap

end SRPC.Dpdk
