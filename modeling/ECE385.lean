import ECE385.Adders.Accumulator
import ECE385.Adders.Interchange
import ECE385.Adders.Nibbles
import ECE385.Arithmetic.Averages
import ECE385.Arithmetic.CarryGroups
import ECE385.Arithmetic.Shifts
import ECE385.Arithmetic.TwosComplement
import ECE385.Clocked.ByteLanes
import ECE385.Clocked.LastWrite
import ECE385.Clocked.Machine
import ECE385.Clocked.Presses
import ECE385.Clocked.Progress
import ECE385.Clocked.RingBuffer
import ECE385.Clocked.SerialRegister
import ECE385.Clocked.ShiftRegister
import ECE385.Display.Ball
import ECE385.Display.Cell
import ECE385.Display.Coherence
import ECE385.Display.Driver
import ECE385.Display.Interface
import ECE385.Display.Lines
import ECE385.Display.Palette
import ECE385.Display.RandomTexts
import ECE385.Display.Rendering
import ECE385.Display.Scan
import ECE385.Display.Sync
import ECE385.Display.Trace
import ECE385.Imperative.Chunks
import ECE385.Imperative.Program
import ECE385.Multiplier.Adder
import ECE385.Multiplier.Circuit
import ECE385.Multiplier.Control
import ECE385.Multiplier.Product
import ECE385.NiosAccumulator.Main
import ECE385.Pedalboard.Agreement
import ECE385.Pedalboard.Amplifying
import ECE385.Pedalboard.Averaging
import ECE385.Pedalboard.Bypass
import ECE385.Pedalboard.Chain
import ECE385.Pedalboard.Clipping
import ECE385.Pedalboard.ControlPanel
import ECE385.Pedalboard.Counting
import ECE385.Pedalboard.Delay
import ECE385.Pedalboard.DelayLine
import ECE385.Pedalboard.Echo
import ECE385.Pedalboard.Effects
import ECE385.Pedalboard.Isolation
import ECE385.Pedalboard.KeyWatch
import ECE385.Pedalboard.MovingAverage
import ECE385.Pedalboard.PanelDisplay
import ECE385.Pedalboard.PanelInvariant
import ECE385.Pedalboard.PanelScreen
import ECE385.Pedalboard.PanelText
import ECE385.Pedalboard.PanelTracking
import ECE385.Pedalboard.Pedals
import ECE385.Pedalboard.Pipeline
import ECE385.Pedalboard.Processing
import ECE385.Pedalboard.ScreenSaver
import ECE385.Pedalboard.Stability
import ECE385.Pedalboard.Tuning
import ECE385.SLC3.Assembler
import ECE385.SLC3.Boot
import ECE385.SLC3.Cycle
import ECE385.SLC3.Datapath
import ECE385.SLC3.DisplayFunction
import ECE385.SLC3.Encoding
import ECE385.SLC3.EntryFunction
import ECE385.SLC3.Execution
import ECE385.SLC3.Handshake
import ECE385.SLC3.ISDU
import ECE385.SLC3.Instantiateram
import ECE385.SLC3.Instruction
import ECE385.SLC3.Isa
import ECE385.SLC3.Launch
import ECE385.SLC3.Loading
import ECE385.SLC3.Lockstep
import ECE385.SLC3.MappedOutput
import ECE385.SLC3.Multiplication
import ECE385.SLC3.MultiplierPasses
import ECE385.SLC3.MultiplierProgram
import ECE385.SLC3.Pause
import ECE385.SLC3.Program
import ECE385.SLC3.Refinement
import ECE385.SLC3.Slc3
import ECE385.SLC3.SortFunction
import ECE385.SLC3.SortMenu
import ECE385.SLC3.SortProgram
import ECE385.SLC3.SortSession
import ECE385.SLC3.SramTop
import ECE385.SLC3.Stepping
import ECE385.SLC3.TestPrograms
import ECE385.SLC3.TestTop
import ECE385.SerialProcessor.Circuit
import ECE385.SerialProcessor.Control
import ECE385.SerialProcessor.Operation
import ECE385.Sorting.Bubble
import ECE385.UsbHost.Descriptors
import ECE385.UsbHost.Digits
import ECE385.UsbHost.Dispatch
import ECE385.UsbHost.Enumeration
import ECE385.UsbHost.Frames
import ECE385.UsbHost.Hid
import ECE385.UsbHost.MAX3421E
import ECE385.UsbHost.Main
import ECE385.UsbHost.Pio
import ECE385.UsbHost.Probing
import ECE385.UsbHost.Receive
import ECE385.UsbHost.Records
import ECE385.UsbHost.Safety
import ECE385.UsbHost.Stages
import ECE385.UsbHost.Transfer
import ECE385.UsbHost.UsbTask
