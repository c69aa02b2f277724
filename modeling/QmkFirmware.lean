import QmkFirmware.Lib.Memory
import QmkFirmware.Lib.PatchLog
import QmkFirmware.Lib.LittleEndian
import QmkFirmware.Lib.LogScan
import QmkFirmware.Lib.Trie
import QmkFirmware.Lib.Writes
import QmkFirmware.Lib.Handles
import QmkFirmware.Lib.Bresenham
import QmkFirmware.Eeconfig.Code
import QmkFirmware.Eeconfig.Interrupted
import QmkFirmware.WearLeveling.Acknowledge
import QmkFirmware.WearLeveling.PowerLoss
import QmkFirmware.WearLeveling.Startup
import QmkFirmware.WearLeveling.Locking
import QmkFirmware.WearLeveling.Discipline
import QmkFirmware.Eeprom.L4Startup
import QmkFirmware.Eeprom.PowerLoss
import QmkFirmware.Tapping.Order
import QmkFirmware.Layer.Oneshot
import QmkFirmware.Bluetooth.Receive
import QmkFirmware.Bluetooth.Delivery
import QmkFirmware.Naginata.Typing
import QmkFirmware.Naginata.Bounds
import QmkFirmware.Naginata.Layers
import QmkFirmware.Combos.Pairing
import QmkFirmware.Debounce.Truthful
import QmkFirmware.Debounce.Bounces
import QmkFirmware.Debounce.Converges
import QmkFirmware.Debounce.Windows
import QmkFirmware.Deferred.Code
import QmkFirmware.Deferred.Schedule
import QmkFirmware.Via.Code
import QmkFirmware.Via.Packet
import QmkFirmware.Report.Keys
import QmkFirmware.Report.Mode
import QmkFirmware.Report.Phantom
import QmkFirmware.Report.Preference
import QmkFirmware.DynamicMacro.Code
import QmkFirmware.DynamicMacro.Stored
import QmkFirmware.DynamicMacro.Action
import QmkFirmware.DynamicMacro.Playback
import QmkFirmware.Secure.Code
import QmkFirmware.Secure.Unlock
import QmkFirmware.Split.Code
import QmkFirmware.Split.Consistent
import QmkFirmware.Split.Lost
import QmkFirmware.Split.Rpc
import QmkFirmware.Painter.Codec
import QmkFirmware.Painter.RoundTrip
import QmkFirmware.Painter.Truncated
import QmkFirmware.Painter.Animation
import QmkFirmware.Painter.Surface
import QmkFirmware.Painter.Rect
import QmkFirmware.Painter.Line
import QmkFirmware.Painter.Font
import QmkFirmware.Painter.FontFile
import QmkFirmware.Painter.Glyphs
import QmkFirmware.Painter.Image
import QmkFirmware.Painter.Validated
import QmkFirmware.Sequencer.Code
import QmkFirmware.Sequencer.Pairing
import QmkFirmware.Report.Ring
import QmkFirmware.Layer.SourceCache
import QmkFirmware.Secure.Released
import QmkFirmware.Combos.Timeout
import QmkFirmware.Eeprom.L4Blocks
import QmkFirmware.Via.MacroSend
import QmkFirmware.Bluetooth.Framing
import QmkFirmware.Bluetooth.Indicator
import QmkFirmware.Tapping.PerKey
import QmkFirmware.Tapping.Pairing
import QmkFirmware.AutoShift.Code
import QmkFirmware.AutoShift.HoldTime
import QmkFirmware.AutoShift.Options
import QmkFirmware.AutoShift.GivenBack
import QmkFirmware.KeyOverride.Code
import QmkFirmware.KeyOverride.Cleared
import QmkFirmware.KeyOverride.Undo
import QmkFirmware.Matrix.Task
import QmkFirmware.Encoder.Code
import QmkFirmware.Encoder.Turns
import QmkFirmware.Encoder.Link
import QmkFirmware.RgbMatrix.Code
import QmkFirmware.RgbMatrix.Hits
import QmkFirmware.Bluetooth.Dfu
import QmkFirmware.Keychron.FactoryTest
import QmkFirmware.Keychron.HostPairing
import QmkFirmware.Keychron.TimedActions
import QmkFirmware.Autocorrect.Generator
import QmkFirmware.Autocorrect.Format
import QmkFirmware.Autocorrect.Code
import QmkFirmware.Autocorrect.Walk
import QmkFirmware.Unicode.Utf8
import QmkFirmware.Unicode.Terminator
import QmkFirmware.Unicode.Digits
import QmkFirmware.Unicode.Ucis
import QmkFirmware.Unicode.UcisBuffer
import QmkFirmware.Unicode.UcisText
import QmkFirmware.Steno.Code
import QmkFirmware.Steno.Packets
import QmkFirmware.Pointing.AutoMouse
import QmkFirmware.Pointing.Tracker
import QmkFirmware.Naginata.Phantom
import QmkFirmware.TapDance.Code
import QmkFirmware.TapDance.Paired
import QmkFirmware.Matrix.Ghosts
import QmkFirmware.Midi.Delivery
import QmkFirmware.Midi.Sysex
import QmkFirmware.Midi.Tones
import QmkFirmware.Timer.Chibios
import QmkFirmware.Oled.Shown
