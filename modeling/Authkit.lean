import Authkit.Text
import Authkit.Fmt
import Authkit.Core.Username
import Authkit.Base64
import Authkit.Siws.Message
import Authkit.Siws.RoundTrip
import Authkit.Siws.Challenge
import Authkit.RateLimit.Limit
import Authkit.RateLimit.Memory
import Authkit.RateLimit.Redis
import Authkit.RateLimit.Instances
import Authkit.Oidc.StateCache
import Authkit.Oidc.Discovery
import Authkit.Oidc.Exchange
import Authkit.Oidc.Providers
import Authkit.Oidc.Apple
import Authkit.Jwt.Keys
import Authkit.Jwt.Jwks
import Authkit.Jwt.AutoKeys
import Authkit.Password.Phc
import Authkit.Gin.Language
import Authkit.RedisStore.Cache
