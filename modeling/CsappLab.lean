import CsappLab.Tsh.JobIds
import CsappLab.Tsh.StatesMatch
import CsappLab.Tsh.Aim
import CsappLab.Cache.Inclusion
import CsappLab.Cache.Shape
import CsappLab.Trans.Submit
import CsappLab.Trans.Quarter
import CsappLab.Trans.Misses
import CsappLab.Csim.Verbose
import CsappLab.Cache.Direct
import CsappLab.Data.Scale2
import CsappLab.Data.Float2Int
import CsappLab.Data.Power2
import CsappLab.Tsh.Argv
import CsappLab.Tsh.DoBgfg
import CsappLab.Tsh.JobMap
import CsappLab.Tsh.Restored
import CsappLab.Cache.Exit
import CsappLab.Csim.Options
import CsappLab.Csim.Errors
import CsappLab.Cache.Independence
import CsappLab.Data.HowManyBits
import CsappLab.Data.LessOrEqual
import CsappLab.Data.Integers
import CsappLab.Lib.Delivery
import CsappLab.Rio.Rio
import CsappLab.Rio.Unbuffered
import CsappLab.Rio.Buffered
import CsappLab.Rio.Streams
import CsappLab.Rio.Messages
import CsappLab.Cache.Cold
import CsappLab.Trans.Oblivious
import CsappLab.Trans.Graded
import CsappLab.Lib.Rounding
import CsappLab.Data.References
import CsappLab.Data.Btest
import CsappLab.Data.Score
import CsappLab.Lib.Numeral
import CsappLab.Rio.Sio
import CsappLab.Driver.Tracegen
import CsappLab.Driver.Filter
import CsappLab.Driver.EvalPerf
import CsappLab.Driver.Scored
import CsappLab.Lib.Settling
import CsappLab.Tsh.Settles
import CsappLab.Bomb.Defused
