import DfuUtilQda.Qda.Requests

/-! Every request is its packet, written to the front of `qda_buf` and handed
over, and then a look at the response. The fields it was put together from no longer show. -/

namespace DfuUtilQda.Qda
open Machine

/-- A packet of the given type; the fields of the payload follow each other without gaps. -/
def packet (type : UInt32) (payload : List UInt8) : List UInt8 := leBytes 4 type.toNat ++ payload

/-- The payload of a transfer request: a length, a block number, and the data if there is any. -/
def blockPayload (len transaction : UInt16) (data : List UInt8) : List UInt8 :=
  leBytes 2 len.toNat ++ (leBytes 2 transaction.toNat ++ data)

@[simp] theorem packet_length (type : UInt32) (payload : List UInt8) : (packet type payload).length = 4 + payload.length := by
  simp [packet]

@[simp] theorem blockPayload_length (len transaction : UInt16) (data : List UInt8) :
    (blockPayload len transaction data).length = 4 + data.length := by
  simp only [blockPayload, List.length_append, leBytes_length]
  omega

theorem store_type (qdaBuf : QdaBuf) (type : UInt32) : qdaBuf.store32 0 type = qdaBuf.store 0 (packet type []) := by
  rw [QdaBuf.store32, packet, List.append_nil]

theorem store_block (qdaBuf : QdaBuf) (type : UInt32) (len transaction : UInt16) :
    ((qdaBuf.store32 0 type).store16 4 len).store16 6 transaction =
      qdaBuf.store 0 (packet type (blockPayload len transaction [])) := by
  rw [QdaBuf.store32, QdaBuf.store16, QdaBuf.store16, QdaBuf.store_behind _ _ _ _ (by simp),
    QdaBuf.store_behind _ _ _ _ (by simp), packet, blockPayload, List.append_assoc, List.append_nil]

theorem store_data (qdaBuf : QdaBuf) (type : UInt32) (len transaction : UInt16) (data : List UInt8) :
    (qdaBuf.store 0 (packet type (blockPayload len transaction []))).store 8 data =
      qdaBuf.store 0 (packet type (blockPayload len transaction data)) := by
  rw [QdaBuf.store_behind _ _ _ _ (by simp), packet, packet, blockPayload, blockPayload, List.append_nil,
    List.append_assoc, List.append_assoc]

theorem block_len (qdaBuf : QdaBuf) (type : UInt32) (len transaction : UInt16) (data : List UInt8)
    (fits : 4 + (blockPayload len transaction data).length ≤ qdaBufSize) :
    (qdaBuf.store 0 (packet type (blockPayload len transaction data))).u16 4 = len := by
  have layout : (qdaBuf.store 0 (packet type (blockPayload len transaction data))).bytes =
      leBytes 4 type.toNat ++ (leBytes 2 len.toNat ++ (leBytes 2 transaction.toNat ++ data ++
        qdaBuf.bytes.drop (packet type (blockPayload len transaction data)).length)) := by
    rw [QdaBuf.store_eq _ _ (by rwa [packet_length])]
    simp only [packet, blockPayload, List.append_assoc]
  have field := leAt_append (leBytes 4 type.toNat) (leBytes 2 len.toNat) (leBytes 2 transaction.toNat ++ data ++
    qdaBuf.bytes.drop (packet type (blockPayload len transaction data)).length) 2 (leBytes_length 2 _)
  rw [leBytes_length, ← layout] at field
  rw [QdaBuf.u16, field, leNat_leBytes_of_lt len.toNat_lt, UInt16.ofNat_toNat]

variable {m : Type → Type 1} [Monad m] (conf : QdaConf m) {α : Type}

/-- Writes a packet, hands it over and waits for a response of type `expected`. -/
def ask (request : List UInt8) (expected : UInt32) : Code m Bool := do
  modify (fun qdaBuf => qdaBuf.store 0 request)
  exchange conf request.length expected

section Asked

variable [LawfulMonad m] (type expected : UInt32) (rest : Bool → Code m α)

theorem ask_type : (do
    modify (fun qdaBuf => qdaBuf.store32 0 type)
    let ok ← exchange conf 4 expected
    rest ok) = ask conf (packet type []) expected >>= rest := by
  simp only [ask, store_type, packet_length, List.length_nil, bind_assoc]

theorem ask_alt (alt : UInt8) : (do
    modify (fun qdaBuf => (qdaBuf.store32 0 type).store 4 [alt])
    let ok ← exchange conf 5 expected
    rest ok) = ask conf (packet type [alt]) expected >>= rest := by
  have stored (qdaBuf : QdaBuf) : (qdaBuf.store32 0 type).store 4 [alt] = qdaBuf.store 0 (packet type [alt]) := by
    rw [QdaBuf.store32, QdaBuf.store_behind _ _ _ _ (by simp), packet]
  simp only [ask, stored, packet_length, List.length_singleton, bind_assoc]

theorem ask_block (len transaction : UInt16) : (do
    modify (fun qdaBuf => ((qdaBuf.store32 0 type).store16 4 len).store16 6 transaction)
    let ok ← exchange conf 8 expected
    rest ok) = ask conf (packet type (blockPayload len transaction [])) expected >>= rest := by
  simp only [ask, store_block, packet_length, blockPayload_length, List.length_nil, bind_assoc]

end Asked

theorem qdaDfuDownload_eq [LawfulMonad m] [Faults m] (len transaction : UInt16) (data : Pointer) :
    qdaDfuDownload conf len transaction data =
      if len.toNat > qdaBufSize - 4 - 4 then do
        modify (fun qdaBuf => qdaBuf.store 0 (packet qdaPktDfuDnloadReq (blockPayload len transaction [])))
        return -1
      else match data.load len.toNat with
        | none => do
          modify (fun qdaBuf => qdaBuf.store 0 (packet qdaPktDfuDnloadReq (blockPayload len transaction [])))
          fault
        | some bytes => do
          if ← ask conf (packet qdaPktDfuDnloadReq (blockPayload len transaction bytes)) qdaPktAck then return 0
          else return -1 := by
  rw [qdaDfuDownload]
  split
  next => simp only [store_block]
  next room =>
    cases loaded : data.load len.toNat with
    | none => simp only [store_block]
    | some bytes =>
      have count := Pointer.load_length loaded
      have stored (qdaBuf : QdaBuf) :
          (qdaBuf.store 0 (packet qdaPktDfuDnloadReq (blockPayload len transaction bytes))).u16 4 = len :=
        block_len _ _ _ _ _ (by simp only [blockPayload_length, qdaBufSize] at room ⊢; omega)
      have size : (packet qdaPktDfuDnloadReq (blockPayload len transaction bytes)).length = 4 + 4 + len.toNat := by
        simp only [packet_length, blockPayload_length]
        omega
      funext qdaBuf
      simp only [ask, size, store_block]
      change StateT.run _ qdaBuf = StateT.run _ qdaBuf
      simp only [StateT.run_bind, StateT.run_modify, StateT.run_get, pure_bind, bind_assoc, store_data, stored]

end DfuUtilQda.Qda
