import Vux9k.Lib.Prog
import Vux9k.Lib.Inevitable
import Vux9k.Firmware.Crc
import Vux9k.Transfer.Agreement
import Vux9k.Fat.Card
import Vux9k.Fat.Write
import Vux9k.Firmware.BootPaths
import Vux9k.Rtl.Privilege
import Vux9k.Emu.Soc
import Vux9k.Lockstep.MulDiv
import Vux9k.Lockstep.Csrs
import Vux9k.Lockstep.Cpu
import Vux9k.Lockstep.Hack
import Vux9k.Fat.Answers
import Vux9k.Firmware.Launch
import Vux9k.Rtl.UartAccess
import Vux9k.Rtl.WriteBackBytes
import Vux9k.Rtl.Machine
import Vux9k.Fat.LongNames
import Vux9k.Fat.Fsinfo
import Vux9k.Sd.Blocks
import Vux9k.Firmware.CrcRemainder
import Vux9k.Firmware.Corruption
import Vux9k.Firmware.UploadSink
import Vux9k.Fat.ShortNames
import Vux9k.Fat.MountArith
import Vux9k.Tools.Image
import Vux9k.Lockstep.HackImage
import Vux9k.Shell.Cd
import Vux9k.Lockstep.PowerOn
import Vux9k.Rtl.SerialLink
import Vux9k.Rtl.Fifo
import Vux9k.Lockstep.Timer
import Vux9k.Lockstep.SoftReset
import Vux9k.Lockstep.MmioAgree
import Vux9k.Rtl.Alignment
import Vux9k.Lockstep.Spi
import Vux9k.Fat.Alloc
import Vux9k.Emu.RunUntilTx
import Vux9k.Fat.Refines
import Vux9k.Fat.Copies
