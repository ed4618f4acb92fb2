import DmLockFree.AtomicKFifo.Basic

/-! Every way through `advance`, by name. -/

set_option autoImplicit false

namespace DmLockFree.AtomicKFifo

open Library

inductive Advances (fifo : AtomicKFifo) : Pc → AtomicKFifo → Pc → Option Return → Prop
  | putLoadIn (data : List UInt8) (len : UInt32) :
      Advances fifo (.putLoadIn data len) fifo (.putLoadOut data len fifo.inIdx) none
  | putNothing (data : List UInt8) (len currentIn : UInt32)
      (nothing : min len (fifo.capacity - (currentIn - fifo.outIdx)) = 0) :
      Advances fifo (.putLoadOut data len currentIn) fifo .idle (some (.put data 0))
  | putLoadOut (data : List UInt8) (len currentIn : UInt32)
      (something : min len (fifo.capacity - (currentIn - fifo.outIdx)) ≠ 0) :
      Advances fifo (.putLoadOut data len currentIn) fifo
        (.putCopy ⟨data, len, currentIn, min len (fifo.capacity - (currentIn - fifo.outIdx))⟩)
        none
  | putCopySplit (transfer : Transfer) (buffer : List UInt8)
      (copied : memcpy fifo.buffer (transfer.offset fifo).toNat transfer.data 0
        (transfer.segment fifo).toNat = some buffer)
      (split : transfer.segment fifo < transfer.actual) :
      Advances fifo (.putCopy transfer) { fifo with buffer } (.putCopyRest transfer) none
  | putCopyWhole (transfer : Transfer) (buffer : List UInt8)
      (copied : memcpy fifo.buffer (transfer.offset fifo).toNat transfer.data 0
        (transfer.segment fifo).toNat = some buffer)
      (whole : ¬transfer.segment fifo < transfer.actual) :
      Advances fifo (.putCopy transfer) { fifo with buffer } (.putStore transfer) none
  | putCopyRest (transfer : Transfer) (buffer : List UInt8)
      (copied : memcpy fifo.buffer 0 transfer.data (transfer.segment fifo).toNat
        (transfer.actual - transfer.segment fifo).toNat = some buffer) :
      Advances fifo (.putCopyRest transfer) { fifo with buffer } (.putStore transfer) none
  | putStore (transfer : Transfer) :
      Advances fifo (.putStore transfer)
        { fifo with inIdx := transfer.index + transfer.actual } .idle
        (some (.put transfer.data transfer.actual))
  | readLoadOut (kind : Read) (data : List UInt8) (len : UInt32) :
      Advances fifo (.readLoadOut kind data len) fifo (.readLoadIn kind data len fifo.outIdx) none
  | readNothing (kind : Read) (data : List UInt8) (len currentOut : UInt32)
      (nothing : min len (fifo.inIdx - currentOut) = 0) :
      Advances fifo (.readLoadIn kind data len currentOut) fifo .idle
        (some (.read kind data 0))
  | readLoadIn (kind : Read) (data : List UInt8) (len currentOut : UInt32)
      (something : min len (fifo.inIdx - currentOut) ≠ 0) :
      Advances fifo (.readLoadIn kind data len currentOut) fifo
        (.readCopy kind ⟨data, len, currentOut, min len (fifo.inIdx - currentOut)⟩) none
  | readCopySplit (kind : Read) (transfer : Transfer) (data : List UInt8)
      (copied : memcpy transfer.data 0 fifo.buffer (transfer.offset fifo).toNat
        (transfer.segment fifo).toNat = some data)
      (split : transfer.segment fifo < transfer.actual) :
      Advances fifo (.readCopy kind transfer) fifo (.readCopyRest kind { transfer with data }) none
  | readCopyWhole (kind : Read) (transfer : Transfer) (data : List UInt8) (next : Pc)
      (returned : Option Return)
      (copied : memcpy transfer.data 0 fifo.buffer (transfer.offset fifo).toNat
        (transfer.segment fifo).toNat = some data)
      (whole : ¬transfer.segment fifo < transfer.actual)
      (left : kind.finish { transfer with data } = (next, returned)) :
      Advances fifo (.readCopy kind transfer) fifo next returned
  | readCopyRest (kind : Read) (transfer : Transfer) (data : List UInt8) (next : Pc)
      (returned : Option Return)
      (copied : memcpy transfer.data (transfer.segment fifo).toNat fifo.buffer 0
        (transfer.actual - transfer.segment fifo).toNat = some data)
      (left : kind.finish { transfer with data } = (next, returned)) :
      Advances fifo (.readCopyRest kind transfer) fifo next returned
  | getStore (transfer : Transfer) :
      Advances fifo (.getStore transfer)
        { fifo with outIdx := transfer.index + transfer.actual } .idle
        (some (.read .get transfer.data transfer.actual))
  | observeIn (observer : Observer) :
      Advances fifo (.observeIn observer) fifo (.observeOut observer fifo.inIdx) none
  | observeOut (observer : Observer) (currentIn : UInt32) :
      Advances fifo (.observeOut observer currentIn) fifo .idle
        (some (observer.result fifo currentIn fifo.outIdx))
  | isEmptyOut : Advances fifo .isEmptyOut fifo (.isEmptyIn fifo.outIdx) none
  | isEmptyIn (currentOut : UInt32) :
      Advances fifo (.isEmptyIn currentOut) fifo .idle
        (some (Observer.isEmpty.result fifo fifo.inIdx currentOut))
  | resetIn : Advances fifo .resetIn { fifo with inIdx := 0 } .resetOut none
  | resetOut : Advances fifo .resetOut { fifo with outIdx := 0 } .idle (some .reset)

theorem advances {fifo after : AtomicKFifo} {pc next : Pc} {returned : Option Return}
    (taken : advance fifo pc = some (after, next, returned)) :
    Advances fifo pc after next returned := by
  cases pc with
  | idle => cases taken
  | putLoadIn data len => cases taken; exact .putLoadIn data len
  | putLoadOut data len currentIn =>
      simp only [advance] at taken
      split at taken
      case isTrue nothing => cases taken; exact .putNothing data len currentIn nothing
      case isFalse something => cases taken; exact .putLoadOut data len currentIn something
  | putCopy transfer =>
      obtain ⟨buffer, copied, same⟩ := Option.map_eq_some_iff.mp taken
      cases same
      by_cases split : transfer.segment fifo < transfer.actual
      · rw [if_pos split]
        exact .putCopySplit transfer buffer copied split
      · rw [if_neg split]
        exact .putCopyWhole transfer buffer copied split
  | putCopyRest transfer =>
      obtain ⟨buffer, copied, same⟩ := Option.map_eq_some_iff.mp taken
      cases same
      exact .putCopyRest transfer buffer copied
  | putStore transfer => cases taken; exact .putStore transfer
  | readLoadOut kind data len => cases taken; exact .readLoadOut kind data len
  | readLoadIn kind data len currentOut =>
      simp only [advance] at taken
      split at taken
      case isTrue nothing => cases taken; exact .readNothing kind data len currentOut nothing
      case isFalse something => cases taken; exact .readLoadIn kind data len currentOut something
  | readCopy kind transfer =>
      obtain ⟨data, copied, same⟩ := Option.map_eq_some_iff.mp taken
      by_cases split : transfer.segment fifo < transfer.actual
      · simp only [if_pos split] at same
        cases same
        exact .readCopySplit kind transfer data copied split
      · simp only [if_neg split] at same
        obtain ⟨rfl, left⟩ := Prod.mk.inj same
        exact .readCopyWhole kind transfer data next returned copied split left
  | readCopyRest kind transfer =>
      obtain ⟨data, copied, same⟩ := Option.map_eq_some_iff.mp taken
      obtain ⟨rfl, left⟩ := Prod.mk.inj same
      exact .readCopyRest kind transfer data next returned copied left
  | getStore transfer => cases taken; exact .getStore transfer
  | observeIn observer => cases taken; exact .observeIn observer
  | observeOut observer currentIn => cases taken; exact .observeOut observer currentIn
  | isEmptyOut => cases taken; exact .isEmptyOut
  | isEmptyIn currentOut => cases taken; exact .isEmptyIn currentOut
  | resetIn => cases taken; exact .resetIn
  | resetOut => cases taken; exact .resetOut

end DmLockFree.AtomicKFifo
