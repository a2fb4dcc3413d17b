import Mathlib.Algebra.Group.Nat.Defs
import Mathlib.Logic.Function.Basic
import HiSTB.Lib.Run

/-!
# `Omxvdec.ChanRecord` — the channels of the driver and their numbers (`channel.c`)

`channel_create_inst` allocates a context and records it on `chan_list`, with the first number that no other channel
has; `channel_release_inst` takes it off. The user knows a channel by its number.

A context is its address, and 0 is `HI_NULL`. It holds the node of `chan_list`, which is two pointers of the 32-bit
address space; the nodes of two contexts do not overlap. `list_del` of a context that is not on the list does not
happen. The search is given as many passes as there are channels, and one more.
-/

namespace HiSTB.Omxvdec.ChanRecord

def HI_SUCCESS : BitVec 32 := 0
def HI_FAILURE : BitVec 32 := -1

/-- `OMXVDEC_ENTRY`, with the `channel_id` of each context. -/
structure Entry where
  chanList : List Nat
  channelId : Nat → BitVec 32
  totalChanNum : BitVec 32

namespace Entry

variable (s : Entry)

/-- One scan of the list: on to the next number, if a channel has this one. -/
def scan (channelId : BitVec 32) : BitVec 32 :=
  if s.chanList.any (fun c => s.channelId c == channelId) then channelId + 1 else channelId

/-- The `do`-`while` loop; `none` when it does not end within so many scans. -/
def search : Nat → BitVec 32 → Option (BitVec 32)
  | 0, _ => none
  | n + 1, recordId => if recordId ≠ s.scan recordId then search n (s.scan recordId) else some recordId

/-- `list_add_tail`, with the number. -/
def record (pchan : Nat) (id : BitVec 32) : Entry where
  chanList := s.chanList ++ [pchan]
  channelId := Function.update s.channelId pchan id
  totalChanNum := s.totalChanNum + 1

/-- `channel_add_chan_record`. -/
def channelAddChanRecord (pchan : Nat) : Option (Entry × BitVec 32) :=
  if pchan = 0 then some (s, HI_FAILURE)
  else
    (if s.chanList = [] then some 0 else s.search (s.chanList.length + 1) 0).map
      (fun id => (s.record pchan id, HI_SUCCESS))

/-- `channel_delete_chan_record`. -/
def channelDeleteChanRecord (pchan : Nat) : Entry × BitVec 32 :=
  if pchan = 0 then (s, HI_FAILURE)
  else ({ s with chanList := s.chanList.erase pchan, totalChanNum := s.totalChanNum - 1 }, HI_SUCCESS)

/-- `channel_find_inst_by_channel_id`. -/
def channelFindInstByChannelId (handle : BitVec 32) : Option Nat :=
  if handle.toInt < 0 then none else s.chanList.find? (fun c => s.channelId c == handle)

/-- Fresh memory: the node is in the address space, and overlaps none on the list. -/
def Fresh (pchan : Nat) : Prop := pchan + 8 ≤ 2 ^ 32 ∧ ∀ c ∈ s.chanList, pchan + 8 ≤ c ∨ c + 8 ≤ pchan
deriving Decidable

end Entry

/-- No channels; the numbers are what was in the memory. -/
def start (channelId : Nat → BitVec 32) : Entry where
  chanList := []
  channelId := channelId
  totalChanNum := 0

inductive Call
  | add (pchan : Nat)
  | delete (pchan : Nat)

/-- One call, which shows what it returns. -/
def step (s : Entry) : Call → Option (Entry × List (BitVec 32))
  | .add pchan => (s.channelAddChanRecord pchan).map (fun r => (r.1, [r.2]))
  | .delete pchan => some ((s.channelDeleteChanRecord pchan).1, [(s.channelDeleteChanRecord pchan).2])

/-- What the callers see to: a context that is added was just allocated, and one that is deleted was recorded. -/
def Valid (s : Entry) : Call → Prop
  | .add pchan => pchan ≠ 0 → s.Fresh pchan
  | .delete pchan => pchan ≠ 0 → pchan ∈ s.chanList

instance (s : Entry) : (c : Call) → Decidable (Valid s c)
  | .add _ => inferInstanceAs (Decidable (_ → _))
  | .delete _ => inferInstanceAs (Decidable (_ → _))

end HiSTB.Omxvdec.ChanRecord
