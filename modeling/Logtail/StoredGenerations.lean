import Logtail.Generations
import Logtail.Simulation
import Logtail.StoredLines

/-!
# Rotated files in the store

Rotations fall together with lost answers and reconnects. What the server has stored
when the log file is rotated any number of times and requests and answers are cut off
anywhere.
-/

namespace ModelRead

open Framing FileStream ScribeSend Delivery Thrift Scribe Transitions Simulation Inevitability

variable {σ : Type} {P : TProtocol} {srv : Server σ} {m : Config}

end ModelRead
