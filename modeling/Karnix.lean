import Karnix.Library.Bytes
import Karnix.Library.StructLayout
import Karnix.Audio.NoLoss
import Karnix.Cli.ConsoleOutput
import Karnix.Cli.ConsoleQueue
import Karnix.Cli.ElfLoading
import Karnix.Cli.EnvPrint
import Karnix.Cli.HexCrc
import Karnix.Cli.HexRoundTrip
import Karnix.Cli.LineEditor
import Karnix.Config.Eeprom
import Karnix.Config.RoundTrip
import Karnix.Fat.ListingComplete
import Karnix.Fat.Failures
import Karnix.Fat.Allocation
import Karnix.Fat.Chains
import Karnix.Fat.Bookkeeping
import Karnix.Fat.FileLayout
import Karnix.Fat.FileAccess
import Karnix.Fat.FileContents
import Karnix.Fat.FileSync
import Karnix.Fat.FileRuns
import Karnix.Fat.Mount
import Karnix.Fat.Paths
import Karnix.Fat.Steps
import Karnix.Heap.Sbrk
import Karnix.I2c.Transfers
import Karnix.Keyboard.HidReports
import Karnix.Mac.Ownership
import Karnix.Memops.Primitives
import Karnix.Modbus.Transport
import Karnix.Modbus.Lock
import Karnix.Modbus.ConfigUpdate
import Karnix.Modbus.Containment
import Karnix.Modbus.ErrorDetection
import Karnix.Modbus.AudioLevel
import Karnix.Modbus.Replies
import Karnix.Modbus.RoundTrip
import Karnix.Modbus.RtuFraming
import Karnix.Plic.NoLostEdge
import Karnix.Qspi.Responses
import Karnix.Qspi.ReadBurst
import Karnix.Qspi.Programming
import Karnix.Sd.Bounds
import Karnix.Sd.Capacity
import Karnix.Sd.Integrity
import Karnix.Sd.Isolation
import Karnix.Sd.ReturnCodes
import Karnix.Sram.ReadBurst
import Karnix.Sram.WriteBurst
import Karnix.Sram.Pipelined
import Karnix.Timer.Intervals
import Karnix.Uart.Read
import Karnix.Usb.Commands
import Karnix.Usb.Receiver
import Karnix.Usb.InToggle
import Karnix.Usb.OutTransfer
import Karnix.Usb.SetupToggle
import Karnix.Usb.ResponseBuffer
import Karnix.Usb.Descriptors
import Karnix.Video.Bitblit
import Karnix.Video.ConsoleBounds
import Karnix.Video.ConsoleParts
import Karnix.Video.Glyph
import Karnix.Video.LineClipping
import Karnix.Video.ScanPicture
import Karnix.Tetris.Game
import Karnix.Tetris.Invariant
import Karnix.Tetris.LineClearing
import Karnix.Zmodem.CheckSums
import Karnix.Zmodem.Escapes
import Karnix.Zmodem.Frames
import Karnix.Zmodem.Headers
import Karnix.Zmodem.Pieces
import Karnix.Zmodem.Receive
import Karnix.Zmodem.Recovery
import Karnix.Zmodem.Sessions
import Karnix.Zmodem.Subpackets
import Karnix.Zmodem.Transfer
