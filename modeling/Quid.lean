import Quid.Foundation.Run
import Quid.Foundation.TickCounter
import Quid.Foundation.Mask
import Quid.Foundation.Numeral
import Quid.Foundation.CString
import Quid.Platform
import Quid.Chacha
import Quid.Cuuid
import Quid.Node
import Quid.Process
import Quid.Create
import Quid.Access
import Quid.Text
import Quid.Generator.Ticks
import Quid.Foundation.CyclicCounter
import Quid.Generator.Calls
import Quid.Format.Collision
import Quid.Format.Time
import Quid.Format.Validate
import Quid.Foundation.Compaction
import Quid.Foundation.Window
import Quid.Generator.Conversions
import Quid.Generator.Genuine
import Quid.Generator.Seeds
import Quid.Generator.Unique
import Quid.Text.Parse
import Quid.Text.Print
import Quid.Text.Transport
import Quid.Foundation.ReferenceChacha
import Quid.Cipher.Keystream
import Quid.Format.Metadata
import Quid.Text.Repack
import Quid.Text.Equality
import Quid.Foundation.JoinedNumeral
import Quid.Util
import Quid.Util.Output
import Quid.Windows
import Quid.Util.Timing
import Quid.Cipher.Setup
import Quid.Text.Repeat
import Quid.Foundation.Exchange
import Quid.Getopt
import Quid.Getopt.Option
import Quid.Getopt.Permute
import Quid.Getopt.Reading
import Quid.Getopt.Abbreviation
import Quid.Getopt.Modes
import Quid.Getopt.Contract
import Quid.Main
import Quid.Util.Options
import Quid.Util.Generation
import Quid.Util.Inspection
import Quid.Util.Arguments
import Quid.Foundation.Crowding
import Quid.Generator.Crowding
import Quid.Generator.Schedule
