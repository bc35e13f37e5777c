import MyOS.Machine.Memory
import MyOS.Machine.Paging
import MyOS.Machine.Run
import MyOS.Machine.Mailbox
import MyOS.Machine.Rows
import MyOS.Machine.Slots
import MyOS.Machine.Numeral
import MyOS.Machine.Chain
import MyOS.Machine.Block
import MyOS.Machine.Client
import MyOS.Machine.Cpu
import MyOS.Machine.Pic
import MyOS.Kernel.Lib
import MyOS.Kernel.Files
import MyOS.Kernel.Paging
import MyOS.Kernel.I8259
import MyOS.Kernel.Interrupts
import MyOS.Kernel.Linkage
import MyOS.Kernel.Keyboard
import MyOS.Kernel.Syscall
import MyOS.Kernel.Pointers
import MyOS.Kernel.Clock
import MyOS.Kernel.Format
import MyOS.Kernel.Copying
import MyOS.Files.ReadData
import MyOS.Files.Lookup
import MyOS.Files.Listing
import MyOS.Process.Execute
import MyOS.Descriptor.Calls
import MyOS.Process.Stack
import MyOS.Process.AddressSpace
import MyOS.Process.Child
import MyOS.Process.Arguments
import MyOS.Process.Command
import MyOS.Process.Loading
import MyOS.Descriptor.Table
import MyOS.Descriptor.Allocation
import MyOS.Descriptor.FileStream
import MyOS.Descriptor.DirStream
import MyOS.Descriptor.ReadCount
import MyOS.Descriptor.Service
import MyOS.Descriptor.Refinement
import MyOS.Video.Stores
import MyOS.Video.Document
import MyOS.Terminal.Editor
import MyOS.Terminal.Console
import MyOS.Terminal.Reader
import MyOS.Terminal.Lines
import MyOS.Terminal.Delivery
import MyOS.Terminal.StoredLine
import MyOS.Terminal.Echo
import MyOS.Terminal.Discipline
import MyOS.Video.Undo
import MyOS.Text.Numerals
import MyOS.Text.Printf
import MyOS.Programs.Blink
import MyOS.Programs.BlinkSteps
import MyOS.Programs.BlinkList
import MyOS.Programs.BlinkScreen
import MyOS.Programs.BlinkTiming
import MyOS.Programs.Grep
import MyOS.Programs.GrepLines
import MyOS.Programs.User
import MyOS.Programs.Cat
import MyOS.Programs.Ls
import MyOS.Programs.Shell
import MyOS.Programs.Fish
import MyOS.Programs.FishScreen
