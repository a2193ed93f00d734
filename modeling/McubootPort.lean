import McubootPort.SerialReceive
import McubootPort.SerialTransmit
import McubootPort.Library.ShiftRegister
import McubootPort.Crc16
import McubootPort.SerialFrame
import McubootPort.CborCommon
import McubootPort.FlashArea
import McubootPort.Library.SectionLayout
import McubootPort.LinkerScript
import McubootPort.RomSegments
import McubootPort.LoadHeader
import McubootPort.CrcRemainder
import McubootPort.Library.ByteOrder
import McubootPort.RomTables
import McubootPort.SerialStream
import McubootPort.CborEncode
import McubootPort.FlashAreaRead
import McubootPort.FlashAreaWrite
import McubootPort.CborDecode
import McubootPort.CborContainers
import McubootPort.CoreStartup
import McubootPort.CoreProgress
import McubootPort.Library.Readers
import McubootPort.SerialRecoveryCbor
import McubootPort.FlashStore
import McubootPort.LinkedImage
import McubootPort.Library.Reassembly
import McubootPort.SerialLink
import McubootPort.MemoryLayout
