import KessokuOS.Lib.Memory
import KessokuOS.Lib.Run
import KessokuOS.Lib.Loop
import KessokuOS.Lib.Machine
import KessokuOS.Lib.Routine
import KessokuOS.Lib.SortedList
import KessokuOS.Lib.DoublyLinked
import KessokuOS.Lib.X86
import KessokuOS.Lib.RealMode
import KessokuOS.Lib.I8042
import KessokuOS.Common
import KessokuOS.Data.FCVector
import KessokuOS.Data.Queue
import KessokuOS.Data.PreemptedQueue
import KessokuOS.MemoryManager.Basic
import KessokuOS.MemoryManager.FreeList
import KessokuOS.MemoryManager.Search
import KessokuOS.MemoryManager.Layout
import KessokuOS.MemoryManager.Operations
import KessokuOS.MemoryManager.Safety
import KessokuOS.MemoryManager.WellFormed
import KessokuOS.MemoryManager.Confluence
import KessokuOS.MemoryManager.Extents
import KessokuOS.MemoryManager.BestFit
import KessokuOS.MemoryManager.FullList
import KessokuOS.MemoryManager.Atomic
import KessokuOS.MemoryManager.Scopes
import KessokuOS.MemoryManager.History
import KessokuOS.Interrupts.Pic
import KessokuOS.Interrupts.Idt
import KessokuOS.Gdt
import KessokuOS.Drivers.Pit
import KessokuOS.Drivers.Pit.Divisor
import KessokuOS.Drivers.Pit.Sleep
import KessokuOS.Drivers.Keyboard.Keycode
import KessokuOS.Drivers.Keyboard.Basic
import KessokuOS.Drivers.Keyboard.Code
import KessokuOS.Drivers.Keyboard.Pipeline
import KessokuOS.Drivers.Keyboard.Unimplemented
import KessokuOS.Drivers.Keyboard.Bursts
import KessokuOS.Drivers.Vga.Basic
import KessokuOS.Drivers.Vga.Number
import KessokuOS.Drivers.Vga.Page
import KessokuOS.Drivers.Vga.Cursor
import KessokuOS.Drivers.Vga.Attribute
import KessokuOS.Drivers.Ps2
import KessokuOS.Drivers.Keyboard.Initialize
import KessokuOS.Drivers.Ps2.Initialize
import KessokuOS.Drivers.Ps2.Controller
import KessokuOS.Drivers.FloppyDisk
import KessokuOS.Drivers.Floppy.Command
import KessokuOS.Drivers.Floppy.Driver
import KessokuOS.Drivers.Floppy.Answers
import KessokuOS.Drivers.Floppy.Sleep
import KessokuOS.Drivers.Floppy.Controller
import KessokuOS.Drivers.Floppy.Framing
import KessokuOS.Drivers.Floppy.Handshake
import KessokuOS.Drivers.Floppy.Wait
import KessokuOS.Drivers.Floppy.ReadData
import KessokuOS.Drivers.Floppy.DataPort
import KessokuOS.Drivers.Floppy.SelectDrive
import KessokuOS.Drivers.Floppy.DmaChannel
import KessokuOS.Drivers.Floppy.Channels
import KessokuOS.Drivers.Floppy.Reads
import KessokuOS.Drivers.Floppy.Transfer
import KessokuOS.Interrupts.Dispatch
import KessokuOS.Bootloader.Floppy
import KessokuOS.Bootloader.Loader
import KessokuOS.Bootloader.ReadFailure
import KessokuOS.Bootloader.MemoryMap
import KessokuOS.Bootloader.MapEnd
import KessokuOS.MemoryManager.Region
import KessokuOS.Bootloader.Elf
import KessokuOS.Bootloader.PreKernel
import KessokuOS.Bootloader.A20
import KessokuOS.Bootloader.Stable
import KessokuOS.Bootloader.Boot
import KessokuOS.MemoryManager.Booted
import KessokuOS.MemoryManager.Stack
import KessokuOS.EventLoop
import KessokuOS.MainLoop
