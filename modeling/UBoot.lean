import UBoot.Library.Runs
import UBoot.Library.Bits
import UBoot.Library.SortedGroups
import UBoot.Library.Memory
import UBoot.Library.Pieces
import UBoot.Library.BigEndian
import UBoot.Library.BoundedQueue
import UBoot.Library.FirstMax
import UBoot.Library.Loop
import UBoot.Library.GoodBlocks
import UBoot.Library.Programs
import UBoot.Library.PackedTable
import UBoot.Library.NorFlash
import UBoot.Library.StringTable
import UBoot.Library.OptionArea
import UBoot.Library.Rollback
import UBoot.Library.UndoLog
import UBoot.Lib.Strings
import UBoot.Lib.Crc32
import UBoot.Net.NetReceive
import UBoot.Net.ReceiveEffects
import UBoot.Net.NetSend
import UBoot.Net.UdpRoundTrip
import UBoot.Net.ArpWait
import UBoot.Net.Identity
import UBoot.Flash.AthFlash
import UBoot.Flash.SectRanges
import UBoot.Flash.SectErase
import UBoot.Flash.FlashWrite
import UBoot.Flash.FlashCommands
import UBoot.Flash.WriteRange
import UBoot.Flash.Protection
import UBoot.Flash.AbbrevSpec
import UBoot.Flash.AddrSpec
import UBoot.Flash.BoardSector
import UBoot.Env.Nvedit
import UBoot.Env.EnvTable
import UBoot.Env.EnvEdit
import UBoot.Env.Setenv
import UBoot.Env.GetenvR
import UBoot.Env.EnvFlash
import UBoot.Library.Crash
import UBoot.Env.Redundant
import UBoot.Net.Tftp
import UBoot.Net.TftpStored
import UBoot.Net.Ping
import UBoot.Net.BootpOptions
import UBoot.Net.BootFileSize
import UBoot.Net.OptionReaders
import UBoot.Net.Dhcp
import UBoot.Net.DhcpBound
import UBoot.Net.Nfs
import UBoot.Net.NfsReplies
import UBoot.Net.NfsPaths
import UBoot.Net.Cdp
import UBoot.Net.TftpTransfer
import UBoot.Net.UdpRoundTrip
import UBoot.Net.ArpWait
import UBoot.Net.Identity
import UBoot.Load.KermitData
import UBoot.Load.Kermit
import UBoot.Load.KermitLine
import UBoot.Load.KermitCodec
import UBoot.Load.KermitImage
import UBoot.Image.LzmaWrapper
import UBoot.Env.EnvNand
import UBoot.Image.Mkimage
import UBoot.Image.MultiParts
import UBoot.Load.SRecord
import UBoot.Load.Loads
import UBoot.Load.SRecordGrammar
import UBoot.Bdr.FindBdr
import UBoot.Bdr.TagWalk
import UBoot.Bdr.WriteBdr
import UBoot.Fdt.FtBuild
import UBoot.Fdt.FtBlob
import UBoot.Fdt.FtTree
import UBoot.Fdt.FtGetProp
import UBoot.Fdt.FtRound
import UBoot.Image.PartBounds
import UBoot.Image.DiskBoot
import UBoot.Image.Bootm
import UBoot.Image.LinuxParams
import UBoot.Nand.LegacyRw
import UBoot.Nand.LegacyBounds
import UBoot.Nand.AthRwBuff
import UBoot.Nand.AthBlocks
import UBoot.Nand.EraseCommand
import UBoot.Nand.EraseRange
import UBoot.Nand.BlockMarks
import UBoot.Nand.PageData
import UBoot.Nand.PageWrites
import UBoot.Pci.ScanBus
import UBoot.Pci.PciAuto
import UBoot.Pci.Cursors
import UBoot.Pci.RegionAllocate
import UBoot.Pci.SetupDevice
import UBoot.Pci.BridgeWindows
import UBoot.Pci.Outlines
import UBoot.Pci.BridgesApart
import UBoot.Common.Lists
import UBoot.Common.CircBuf
import UBoot.Common.ListRuns
import UBoot.Common.Memsize
import UBoot.Common.Kgdb
import UBoot.Common.Devices
import UBoot.Common.ConsoleRuns
import UBoot.Net.EthRing
import UBoot.Net.DeviceStart
import UBoot.Net.GmacRecv
import UBoot.Shell.ProcessMacros
import UBoot.Shell.Segments
import UBoot.Shell.ParseLine
import UBoot.Shell.RunCommand
import UBoot.Shell.FindCmd
import UBoot.Shell.AutoComplete
import UBoot.Shell.Arguments
import UBoot.Shell.Readline
import UBoot.Mtd.MtdParts
import UBoot.Mtd.PartLists
import UBoot.Mtd.CurrentPart
import UBoot.Mtd.PartText
import UBoot.Mtd.PartRead
import UBoot.Mtd.PartCommands
import UBoot.Mtd.PartRound
import UBoot.Usb.UsbStorage
import UBoot.Usb.UsbTransport
import UBoot.Usb.UsbRead
import UBoot.Common.Eeprom
import UBoot.Flash.Dataflash
import UBoot.Image.FpgaBitstream
import UBoot.Usb.ParseConfig
import UBoot.Library.Retry
import UBoot.Usb.StorScan
import UBoot.Library.Layout
import UBoot.Flash.CfiGetSize
import UBoot.Nand.WritePage
import UBoot.Flash.CfiChip
import UBoot.Flash.CfiWrite
import UBoot.Flash.CfiWriteExact
import UBoot.Common.Itest
import UBoot.Library.Windows
import UBoot.Pci.HoseAddress
import UBoot.Disk.IdeTransfer
import UBoot.Disk.ScsiRead
import UBoot.Image.SilentLinux
import UBoot.Pci.ConfigDevice
import UBoot.Pci.ConfigWindows
import UBoot.Image.PrintHeader
import UBoot.Image.Gunzip
import UBoot.Load.Img2srec
import UBoot.Bedbug.Tables
import UBoot.Lib.Numbers
import UBoot.Bedbug.Asmppc
import UBoot.Bedbug.OperandTexts
import UBoot.Bedbug.RoundTrip
import UBoot.Net.IpStrings
import UBoot.Common.ListSearch
import UBoot.Common.ListDuplicates
import UBoot.Net.NetConsole
import UBoot.Common.MemoryTest
import UBoot.Library.Gregorian
import UBoot.Rtc.Date
import UBoot.Bedbug.NextAddress
import UBoot.Common.LcdConsole
import UBoot.Common.LcdBitmap
